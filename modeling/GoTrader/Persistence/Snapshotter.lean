import Mathlib.Data.Nat.Digits
import GoTrader.Persistence.SnapshotFile
import GoTrader.Persistence.Model

/-!
# The snapshot directory: `Save` and `LoadLatest`

`Snapshotter` in `snapshot.go` keeps one file per snapshot, named by its timestamp in decimal,
and `LoadLatest` parses the names back to find the greatest timestamp. This module models the
names and the directory, and shows that the directory refines `loadLatest`, the model's
reading of "the snapshot saved last with the greatest timestamp".

* `formatInt` — `fmt.Sprintf("%d", ts)`; `parseUint` / `parseInt` — `strconv.ParseUint` and
  `strconv.ParseInt` in base 10 for 64 bits; `parseInt_formatInt` — every `int64` reads back
  from its decimal form, `math.MinInt64` included;
* `snapshotPath`, `snapshotTimestamp` — the name `Save` writes and the timestamp `LoadLatest`
  reads from a name; `snapshotTimestamp_snapshotPath`, `snapshotTimestamp_tmp`;
* `Dir`, `save`, `saveCrashed`, `loadLatestDir` — the directory, a `Save`, a `Save` cut by a
  crash before its rename, and `LoadLatest`;
* `DirInv`, `DirInv.loadLatestDir_eq` — a directory holding the files of the saved snapshots,
  and `LoadLatest` of it;
* `loadLatestDir_run` — after any run of saves and crashed saves from a directory with no
  snapshot files, `LoadLatest` returns what `loadLatest` picks among the saved snapshots.

The zstd frame and IO errors are not modelled: a file holds the bytes `writeSnapshot` wrote.
-/

namespace GoTrader.Persistence

/-! ## Decimal names -/

/-- `fmt.Sprintf("%d", ts)` for an `int64`: a minus sign for a negative value, then the decimal
digits of its absolute value (`9223372036854775808` for `math.MinInt64`).
Source: `snapshot.go` `snapshotPath` (`%d`); Go `fmt`
Kind: D
Fidelity: exact -/
def formatInt (ts : Int64) : List Char :=
  (if ts.toInt < 0 then ['-'] else []) ++ Nat.toDigits 10 ts.toInt.natAbs

/-- The loop of `strconv.ParseUint(s, 10, 64)` from the value `n` read so far: every byte must be
a decimal digit, and the value must stay below `2 ^ 64`.
Source: Go `strconv` `ParseUint`
Kind: D
Fidelity: exact on the outcome (a range error and a syntax error are both an error) -/
def parseUintLoop : Nat → List Char → Option Nat
  | n, [] => some n
  | n, c :: cs =>
    if '0' ≤ c ∧ c ≤ '9' then
      if n * 10 + (c.toNat - 48) < 2 ^ 64 then parseUintLoop (n * 10 + (c.toNat - 48)) cs
      else none
    else none

/-- `strconv.ParseUint(s, 10, 64)`: an empty string is an error.
Source: Go `strconv` `ParseUint`
Kind: D
Fidelity: exact on the outcome -/
def parseUint (s : List Char) : Option Nat := if s = [] then none else parseUintLoop 0 s

/-- `strconv.ParseInt(s, 10, 64)`: an optional sign, then `ParseUint`, then the range of
`int64`; `-9223372036854775808` is in range.
Source: Go `strconv` `ParseInt`
Kind: D
Fidelity: exact on the outcome -/
def parseInt (s : List Char) : Option Int64 :=
  match s with
  | [] => none
  | c :: rest =>
    let (neg, digits) :=
      if c = '+' then (false, rest) else if c = '-' then (true, rest) else (false, c :: rest)
    match parseUint digits with
    | none => none
    | some un =>
      if !neg && 2 ^ 63 ≤ un then none
      else if neg && 2 ^ 63 < un then none
      else some (if neg then -BitVec.ofNat 64 un else BitVec.ofNat 64 un)

/-- The value of a string of decimal digits. Source: none. Kind: D -/
def digitsValue (acc : Nat) (s : List Char) : Nat :=
  s.foldl (fun n c => n * 10 + (c.toNat - 48)) acc

theorem le_digitsValue (acc : Nat) (s : List Char) : acc ≤ digitsValue acc s := by
  induction s generalizing acc with
  | nil => exact le_rfl
  | cons c s ih => exact (Nat.le_mul_of_pos_right acc (by omega)).trans ((Nat.le_add_right _ _).trans (ih _))

/-- Digits whose value fits 64 bits are read back. Source: Go `strconv` `ParseUint`. Kind: L -/
theorem parseUintLoop_digits {s : List Char} (hs : ∀ c ∈ s, '0' ≤ c ∧ c ≤ '9') :
    ∀ {acc : Nat}, digitsValue acc s < 2 ^ 64 → parseUintLoop acc s = some (digitsValue acc s) := by
  induction s with
  | nil => intro acc _; rfl
  | cons c s ih =>
    intro acc h
    have hlt : acc * 10 + (c.toNat - 48) < 2 ^ 64 :=
      (le_digitsValue _ s).trans_lt h
    rw [parseUintLoop, if_pos (hs c (.head _)), if_pos hlt,
      ih (fun c hc => hs c (.tail _ hc)) h]
    rfl

theorem digitChar_spec : ∀ d < 10,
    '0' ≤ Nat.digitChar d ∧ Nat.digitChar d ≤ '9' ∧ (Nat.digitChar d).toNat - 48 = d := by
  have : ∀ d : Fin 10, '0' ≤ Nat.digitChar d ∧ Nat.digitChar d ≤ '9' ∧
      (Nat.digitChar d).toNat - 48 = d := by decide
  exact fun d hd => this ⟨d, hd⟩

/-- `Nat.toDigits`'s loop puts the decimal digits of `n` in front of `ds`. Source: none.
Kind: L -/
theorem toDigitsCore_spec : ∀ (fuel n : Nat) (ds : List Char), n < fuel →
    ∃ l, Nat.toDigitsCore 10 fuel n ds = l ++ ds ∧ l ≠ [] ∧ (∀ c ∈ l, '0' ≤ c ∧ c ≤ '9') ∧
      digitsValue 0 l = n
  | 0, n, ds, h => absurd h (Nat.not_lt_zero n)
  | fuel + 1, n, ds, h => by
    obtain ⟨h0, h9, hv⟩ := digitChar_spec (n % 10) (Nat.mod_lt _ (by omega))
    rw [Nat.toDigitsCore]
    split_ifs with hn
    · refine ⟨[Nat.digitChar (n % 10)], rfl, List.cons_ne_nil _ _, by simpa using ⟨h0, h9⟩, ?_⟩
      simp only [digitsValue, List.foldl_cons, List.foldl_nil, hv]
      omega
    · obtain ⟨l, hl, hl0, hd, hval⟩ :=
        toDigitsCore_spec fuel (n / 10) (Nat.digitChar (n % 10) :: ds) (by omega)
      refine ⟨l ++ [Nat.digitChar (n % 10)], by rw [hl, List.append_assoc]; rfl, by simp, ?_, ?_⟩
      · intro c hc
        rcases List.mem_append.1 hc with hc | hc
        · exact hd c hc
        · rw [List.mem_singleton.1 hc]
          exact ⟨h0, h9⟩
      · simp only [digitsValue, List.foldl_append, List.foldl_cons, List.foldl_nil] at hval ⊢
        rw [hval, hv]
        omega

theorem toDigits_spec (n : Nat) :
    ∃ l, Nat.toDigits 10 n = l ∧ l ≠ [] ∧ (∀ c ∈ l, '0' ≤ c ∧ c ≤ '9') ∧ digitsValue 0 l = n := by
  obtain ⟨l, hl, h⟩ := toDigitsCore_spec (n + 1) n [] (Nat.lt_succ_self n)
  exact ⟨l, by rw [Nat.toDigits, hl, List.append_nil], h⟩

/-- The decimal digits of `n < 2 ^ 64` read back as `n`. Source: Go `strconv` `ParseUint`.
Kind: L -/
theorem parseUint_toDigits {n : Nat} (hn : n < 2 ^ 64) : parseUint (Nat.toDigits 10 n) = some n := by
  obtain ⟨l, hl, hl0, hd, hval⟩ := toDigits_spec n
  rw [hl, parseUint, if_neg hl0, parseUintLoop_digits hd (by rw [hval]; exact hn), hval]

/-- Every `int64` reads back from the decimal form `%d` prints: `strconv.ParseInt(s, 10, 64)` of
`fmt.Sprintf("%d", ts)` is `ts`, for negative values and `math.MinInt64` as for the rest.
Source: `snapshot.go` `snapshotPath`, `LoadLatest`; Go `fmt`, `strconv` `ParseInt`
Kind: P -/
theorem parseInt_formatInt (ts : Int64) : parseInt (formatInt ts) = some ts := by
  have hcond := BitVec.toInt_eq_toNat_cond ts
  have hlt := ts.isLt
  obtain ⟨l, hl, hl0, hd, hval⟩ := toDigits_spec ts.toInt.natAbs
  obtain _ | ⟨c, rest⟩ := l
  · exact absurd rfl hl0
  have hc := hd c (.head _)
  have hc' : c ≠ '+' ∧ c ≠ '-' := by
    constructor <;> rintro rfl <;> simp at hc
  by_cases hneg : ts.toInt < 0
  · have habs : ts.toInt.natAbs = 2 ^ 64 - ts.toNat := by
      split_ifs at hcond <;> omega
    rw [formatInt, if_pos hneg, hl, List.singleton_append, parseInt]
    simp only [show ('-' : Char) ≠ '+' by decide, if_false, if_true, ← hl,
      parseUint_toDigits (show ts.toInt.natAbs < 2 ^ 64 by omega)]
    rw [if_neg (by simp), if_neg (by simp; split_ifs at hcond <;> omega)]
    simp only [if_true, Option.some.injEq]
    apply BitVec.eq_of_toNat_eq
    rw [BitVec.toNat_neg, BitVec.toNat_ofNat, habs]
    split_ifs at hcond <;> omega
  · have habs : ts.toInt.natAbs = ts.toNat := by
      split_ifs at hcond <;> omega
    rw [formatInt, if_neg hneg, hl, List.nil_append, parseInt]
    simp only [if_neg hc'.1, if_neg hc'.2, ← hl,
      parseUint_toDigits (show ts.toInt.natAbs < 2 ^ 64 by omega)]
    rw [if_neg (by simp; split_ifs at hcond <;> omega), if_neg (by simp)]
    simp only [Bool.false_eq_true, if_false, Option.some.injEq]
    apply BitVec.eq_of_toNat_eq
    rw [BitVec.toNat_ofNat, habs, Nat.mod_eq_of_lt hlt]

/-! ## Names -/

/-- Source: `snapshot.go` `snapshotPath`, `LoadLatest` (`"snapshot-"`). Kind: D -/
def snapshotPrefix : List Char := "snapshot-".toList

/-- Source: `snapshot.go` `snapshotPath`, `LoadLatest` (`".snap"`). Kind: D -/
def snapshotSuffix : List Char := ".snap".toList

/-- Source: `snapshot.go` `Save` (`dst + ".tmp"`). Kind: D -/
def tmpSuffix : List Char := ".tmp".toList

/-- The name of the file of a snapshot taken at `ts`, in the snapshot directory.
Source: `snapshot.go` `(*Snapshotter).snapshotPath`
Kind: D
Fidelity: exact for the name; the directory part of `filepath.Join` is the directory itself -/
def snapshotPath (ts : Int64) : List Char := snapshotPrefix ++ formatInt ts ++ snapshotSuffix

/-- Source: Go `strings` `TrimPrefix`. Kind: D. Fidelity: exact -/
def trimPrefix (s pre : List Char) : List Char := if pre.isPrefixOf s then s.drop pre.length else s

/-- Source: Go `strings` `TrimSuffix`. Kind: D. Fidelity: exact -/
def trimSuffix (s suf : List Char) : List Char :=
  if suf.isSuffixOf s then s.take (s.length - suf.length) else s

/-- The timestamp `LoadLatest` reads from a directory entry's name, or `none` for a name it skips:
one without the prefix or the suffix, or whose middle `ParseInt` rejects.
Source: `snapshot.go` `(*Snapshotter).LoadLatest` (the loop over `entries`)
Kind: D
Fidelity: exact -/
def snapshotTimestamp (name : List Char) : Option Int64 :=
  if snapshotPrefix.isPrefixOf name && snapshotSuffix.isSuffixOf name then
    parseInt (trimSuffix (trimPrefix name snapshotPrefix) snapshotSuffix)
  else none

/-- `LoadLatest` reads back the timestamp of every name `Save` writes. Source: `snapshot.go`
`snapshotPath`, `LoadLatest`. Kind: L -/
theorem snapshotTimestamp_snapshotPath (ts : Int64) :
    snapshotTimestamp (snapshotPath ts) = some ts := by
  have hpre : snapshotPrefix.isPrefixOf (snapshotPath ts) = true := by
    rw [List.isPrefixOf_iff_prefix, snapshotPath, List.append_assoc]
    exact List.prefix_append _ _
  have hsuf (l : List Char) : snapshotSuffix.isSuffixOf (l ++ snapshotSuffix) = true :=
    List.isSuffixOf_iff_suffix.2 (List.suffix_append _ _)
  rw [snapshotTimestamp, hpre, snapshotPath, hsuf, Bool.and_self, if_pos rfl, trimPrefix,
    ← snapshotPath, if_pos hpre, snapshotPath, List.append_assoc, List.drop_left, trimSuffix,
    if_pos (hsuf _), List.length_append, Nat.add_sub_cancel, List.take_left, parseInt_formatInt]

theorem snapshotPath_injective {ts ts' : Int64} (h : snapshotPath ts = snapshotPath ts') :
    ts = ts' := by
  have := snapshotTimestamp_snapshotPath ts
  rwa [h, snapshotTimestamp_snapshotPath, Option.some.injEq, eq_comm] at this

/-- `LoadLatest` skips every temporary file of `Save`: its name ends in `.tmp`, not `.snap`.
Source: `snapshot.go` `Save`, `LoadLatest`. Kind: L -/
theorem snapshotTimestamp_tmp (name : List Char) : snapshotTimestamp (name ++ tmpSuffix) = none := by
  have hsuf : snapshotSuffix.isSuffixOf (name ++ tmpSuffix) = false := by
    rw [Bool.eq_false_iff, ne_eq, List.isSuffixOf_iff_suffix]
    intro h
    rcases List.suffix_or_suffix_of_suffix h (List.suffix_append name tmpSuffix) with h' | h'
    · exact absurd h'.length_le (by decide)
    · exact absurd h' (by decide)
  rw [snapshotTimestamp, hsuf, Bool.and_false]
  rfl

theorem snapshotPath_ne_tmp (ts : Int64) (name : List Char) : snapshotPath ts ≠ name ++ tmpSuffix :=
  fun h => by simpa [h, snapshotTimestamp_tmp] using snapshotTimestamp_snapshotPath ts

/-! ## The directory -/

/-- The snapshot directory: each entry's name and the bytes of its file.
Source: `snapshot.go` `Snapshotter` (`dir`)
Kind: D -/
abbrev Dir := List (List Char × List UInt8)

/-- The bytes of the file `name`, if there is one. Source: Go `os` `Open`. Kind: D -/
def Dir.read (d : Dir) (name : List Char) : Option (List UInt8) :=
  (d.find? fun e => e.1 = name).map Prod.snd

/-- The file `name` created or truncated and given `bytes`. Source: Go `os` `Create`, `Write`.
Kind: D -/
def Dir.put (d : Dir) (name : List Char) (bytes : List UInt8) : Dir :=
  d.filter (fun e => e.1 ≠ name) ++ [(name, bytes)]

/-- `os.Rename(src, dst)`: `dst` replaced by `src`'s file, atomically.
Source: Go `os` `Rename`
Kind: D
Fidelity: a rename that succeeds -/
def Dir.rename (d : Dir) (src dst : List Char) : Dir :=
  match d.read src with
  | some bytes => Dir.put (d.filter fun e => e.1 ≠ src) dst bytes
  | none => d

/-- `Save`: the snapshot written to `snapshot-<ts>.snap.tmp`, synced, then renamed over
`snapshot-<ts>.snap`.
Source: `snapshot.go` `(*Snapshotter).Save`
Kind: D
Fidelity: without IO errors; the zstd frame is left out -/
def save (d : Dir) (snap : Snapshot) : Dir :=
  (d.put (snapshotPath snap.timestamp ++ tmpSuffix) (writeSnapshot snap)).rename
    (snapshotPath snap.timestamp ++ tmpSuffix) (snapshotPath snap.timestamp)

/-- A `Save` cut by a crash before its rename: the temporary file holds the first `k` bytes.
Source: `snapshot.go` `(*Snapshotter).Save`
Kind: D -/
def saveCrashed (d : Dir) (snap : Snapshot) (k : Nat) : Dir :=
  d.put (snapshotPath snap.timestamp ++ tmpSuffix) ((writeSnapshot snap).take k)

/-- One more timestamp against the greatest so far, in signed order.
Source: `snapshot.go` `(*Snapshotter).LoadLatest` (`timestamps[i] > timestamps[j]`)
Kind: D -/
def maxStep (best : Option Int64) (ts : Int64) : Option Int64 :=
  match best with
  | none => some ts
  | some b => if b.slt ts then some ts else some b

/-- `sort.Slice(timestamps, >)` then `timestamps[0]`: the greatest timestamp, in signed order.
Source: `snapshot.go` `(*Snapshotter).LoadLatest`
Kind: D
Fidelity: exact: which of equal timestamps comes first does not matter -/
def maxTimestamp (l : List Int64) : Option Int64 :=
  l.foldl maxStep none

/-- The errors of `LoadLatest`: `os.Open` of the latest name fails, or `readSnapshot` does.
Source: `snapshot.go` `(*Snapshotter).LoadLatest`
Kind: D -/
inductive LoadError where
  | openFailed (name : List Char)
  | read (err : SnapshotError)
deriving DecidableEq, Repr

/-- `LoadLatest`: the greatest timestamp among the names it reads, then the file of that
timestamp's canonical name, decoded; no snapshot when no name reads.
Source: `snapshot.go` `(*Snapshotter).LoadLatest`
Kind: D
Fidelity: exact without IO errors; the zstd frame is left out -/
def loadLatestDir (d : Dir) : Except LoadError (Option Snapshot) :=
  match maxTimestamp (d.filterMap fun e => snapshotTimestamp e.1) with
  | none => .ok none
  | some ts =>
    match d.read (snapshotPath ts) with
    | none => .error (.openFailed (snapshotPath ts))
    | some bytes =>
      match readSnapshot bytes with
      | .ok snap => .ok (some snap)
      | .error err => .error (.read err)

/-! ## Reading, writing and renaming -/

namespace Dir

theorem read_filter {d : Dir} {name name' : List Char} (h : name' ≠ name) :
    Dir.read (d.filter fun e => e.1 ≠ name) name' = d.read name' := by
  simp only [read, List.find?_filter]
  congr 2
  funext a
  by_cases ha : a.1 = name' <;> simp [ha, h]

@[simp]
theorem read_put (d : Dir) (name name' : List Char) (bytes : List UInt8) :
    (d.put name bytes).read name' = if name' = name then some bytes else d.read name' := by
  split_ifs with h
  · subst h
    simp [put, read, List.find?_append, List.find?_filter]
  · have hp : (fun a : List Char × List UInt8 => !decide (a.1 = name) && decide (a.1 = name')) =
        fun e => decide (e.1 = name') := by
      funext a
      by_cases ha : a.1 = name' <;> simp [ha, h]
    simp [put, read, List.find?_append, Ne.symm h, hp]

theorem mem_of_read {d : Dir} {name : List Char} {bytes : List UInt8}
    (h : d.read name = some bytes) : (name, bytes) ∈ d := by
  simp only [read, Option.map_eq_some'] at h
  obtain ⟨e, he, rfl⟩ := h
  have := List.find?_some he
  rw [← (by simpa using this : e.1 = name)]
  exact List.mem_of_find?_eq_some he

theorem read_of_mem {d : Dir} {e : List Char × List UInt8} (he : e ∈ d) : (d.read e.1).isSome := by
  simp only [read, Option.isSome_map', List.find?_isSome]
  exact ⟨e, he, by simp⟩

theorem mem_put {d : Dir} {name : List Char} {bytes : List UInt8} {e : List Char × List UInt8}
    (he : e ∈ d.put name bytes) : e = (name, bytes) ∨ e ∈ d := by
  simp only [put, List.mem_append, List.mem_filter, List.mem_singleton] at he
  exact he.elim (fun h => .inr h.1) .inl

end Dir

/-! ## Runs -/

/-- The snapshot saved last at `ts`, whose file `Save` left under `ts`'s name.
Source: none: what `Save`'s rename keeps
Kind: D -/
def lastAt (saved : List Snapshot) (ts : Int64) : Option Snapshot :=
  (saved.filter fun s => s.timestamp = ts).getLast?

/-- A step of a run: a `Save`, or a `Save` that a crash cut after `k` bytes.
Source: `snapshot.go` `Save`
Kind: D -/
inductive SaveOp where
  | saved (snap : Snapshot)
  | crashed (snap : Snapshot) (k : Nat)

/-- One step on the directory. Source: `snapshot.go` `Save`. Kind: D -/
def SaveOp.apply (d : Dir) : SaveOp → Dir
  | .saved snap => save d snap
  | .crashed snap k => saveCrashed d snap k

/-- The snapshots a run saved, in order. Source: `snapshot.go` `Save`. Kind: D -/
def SaveOp.snapshots : List SaveOp → List Snapshot
  | [] => []
  | .saved snap :: ops => snap :: snapshots ops
  | .crashed _ _ :: ops => snapshots ops

/-- What a directory holds after `saved` were saved: under each timestamp's name, the bytes of
the snapshot saved last at it; and no other entry whose name `LoadLatest` reads.
Source: `snapshot.go` `Save`, `LoadLatest`
Kind: D -/
structure DirInv (saved : List Snapshot) (d : Dir) : Prop where
  read : ∀ ts, d.read (snapshotPath ts) = (lastAt saved ts).map writeSnapshot
  canonical : ∀ e ∈ d, ∀ ts, snapshotTimestamp e.1 = some ts → e.1 = snapshotPath ts

theorem lastAt_append (saved : List Snapshot) (snap : Snapshot) (ts : Int64) :
    lastAt (saved ++ [snap]) ts = if snap.timestamp = ts then some snap else lastAt saved ts := by
  split_ifs with h <;> simp [lastAt, List.filter_append, h]

theorem DirInv.init {d : Dir} (hd : ∀ e ∈ d, snapshotTimestamp e.1 = none) : DirInv [] d where
  read ts := by
    rw [lastAt, List.filter_nil, List.getLast?_nil, Option.map_none']
    cases h : d.read (snapshotPath ts) with
    | none => rfl
    | some b => simpa [snapshotTimestamp_snapshotPath] using hd _ (Dir.mem_of_read h)
  canonical e he ts h := by simp [hd e he] at h

theorem DirInv.put_tmp {saved : List Snapshot} {d : Dir} (hd : DirInv saved d) (name : List Char)
    (bytes : List UInt8) : DirInv saved (d.put (name ++ tmpSuffix) bytes) where
  read ts := by rw [Dir.read_put, if_neg (snapshotPath_ne_tmp ts name), hd.read]
  canonical e he ts h := by
    rcases Dir.mem_put he with rfl | he
    · simp [snapshotTimestamp_tmp] at h
    · exact hd.canonical e he ts h

theorem DirInv.save {saved : List Snapshot} {d : Dir} (hd : DirInv saved d) (snap : Snapshot) :
    DirInv (saved ++ [snap]) (save d snap) := by
  have ht := hd.put_tmp (snapshotPath snap.timestamp) (writeSnapshot snap)
  have hr : (d.put (snapshotPath snap.timestamp ++ tmpSuffix) (writeSnapshot snap)).read
      (snapshotPath snap.timestamp ++ tmpSuffix) = some (writeSnapshot snap) := by simp
  rw [GoTrader.Persistence.save, Dir.rename, hr]
  constructor
  · intro ts
    rw [Dir.read_put, lastAt_append]
    by_cases h : ts = snap.timestamp
    · subst h
      simp
    · rw [if_neg (fun e => h (snapshotPath_injective e)), if_neg (Ne.symm h),
        Dir.read_filter (snapshotPath_ne_tmp ts _), ht.read]
  · intro e he ts h
    rcases Dir.mem_put he with rfl | he
    · simp only [snapshotTimestamp_snapshotPath, Option.some.injEq] at h
      rw [h]
    · exact ht.canonical e (List.mem_filter.1 he).1 ts h

theorem DirInv.apply {saved : List Snapshot} {d : Dir} (hd : DirInv saved d) :
    ∀ op : SaveOp, DirInv (saved ++ SaveOp.snapshots [op]) (op.apply d)
  | .saved snap => hd.save snap
  | .crashed snap k => by simpa [SaveOp.snapshots] using hd.put_tmp _ _

theorem saved_append (ops ops' : List SaveOp) :
    SaveOp.snapshots (ops ++ ops') = SaveOp.snapshots ops ++ SaveOp.snapshots ops' := by
  induction ops with
  | nil => rfl
  | cons op ops ih => cases op <;> simp [SaveOp.snapshots, ih]

theorem DirInv.run {saved : List Snapshot} {d : Dir} (hd : DirInv saved d) (ops : List SaveOp) :
    DirInv (saved ++ SaveOp.snapshots ops) (ops.foldl SaveOp.apply d) := by
  induction ops generalizing saved d with
  | nil => simpa [SaveOp.snapshots] using hd
  | cons op ops ih =>
    have := ih (hd.apply op)
    rwa [List.append_assoc, ← saved_append] at this

/-! ## `LoadLatest` after a run -/

theorem foldl_maxStep (b : Int64) (l : List Int64) :
    ∃ m, l.foldl maxStep (some b) = some m ∧ m ∈ b :: l ∧ ∀ x ∈ b :: l, x.toInt ≤ m.toInt := by
  induction l generalizing b with
  | nil => exact ⟨b, rfl, .head _, fun x hx => by rw [List.mem_singleton.1 hx]⟩
  | cons x l ih =>
    by_cases hlt : b.toInt < x.toInt
    · obtain ⟨m, hm, hmem, hle⟩ := ih x
      refine ⟨m, by simpa [maxStep, BitVec.slt, hlt] using hm, ?_, ?_⟩
      · exact List.mem_cons_of_mem _ hmem
      · intro y hy
        rcases List.mem_cons.1 hy with rfl | hy
        · exact hlt.le.trans (hle x (.head _))
        · exact hle y hy
    · obtain ⟨m, hm, hmem, hle⟩ := ih b
      refine ⟨m, by simpa [maxStep, BitVec.slt, hlt] using hm, ?_, ?_⟩
      · rcases List.mem_cons.1 hmem with rfl | h
        · exact .head _
        · exact .tail _ (.tail _ h)
      · intro y hy
        rcases List.mem_cons.1 hy with rfl | hy
        · exact hle y (.head _)
        rcases List.mem_cons.1 hy with rfl | hy
        · exact (Int.not_lt.1 hlt).trans (hle b (.head _))
        · exact hle y (.tail _ hy)

/-- The greatest timestamp is one of them, at least every other; there is none only for no
timestamps. Source: `snapshot.go` `LoadLatest`. Kind: L -/
theorem maxTimestamp_spec (l : List Int64) :
    match maxTimestamp l with
    | none => l = []
    | some m => m ∈ l ∧ ∀ x ∈ l, x.toInt ≤ m.toInt := by
  obtain _ | ⟨x, l⟩ := l
  · rfl
  · obtain ⟨m, hm, h⟩ := foldl_maxStep x l
    rw [maxTimestamp, List.foldl_cons, show maxStep none x = some x from rfl, hm]
    exact h

/-- The greatest timestamp depends only on which timestamps there are. Source: `snapshot.go`
`LoadLatest`. Kind: L -/
theorem maxTimestamp_congr {l l' : List Int64} (h : ∀ x, x ∈ l ↔ x ∈ l') :
    maxTimestamp l = maxTimestamp l' := by
  have hs := maxTimestamp_spec l
  have hs' := maxTimestamp_spec l'
  revert hs hs'
  cases maxTimestamp l <;> cases maxTimestamp l' <;> dsimp only <;> intro hs hs'
  · rfl
  · subst hs
    exact absurd ((h _).2 hs'.1) (List.not_mem_nil _)
  · subst hs'
    exact absurd ((h _).1 hs.1) (List.not_mem_nil _)
  · rename_i m m'
    have h1 := hs.2 m' ((h m').2 hs'.1)
    have h2 := hs'.2 m ((h m).1 hs.1)
    rw [BitVec.toInt_inj.1 (le_antisymm h2 h1)]

theorem lastAt_spec {saved : List Snapshot} {ts : Int64} {b : Snapshot}
    (h : lastAt saved ts = some b) : b ∈ saved ∧ b.timestamp = ts := by
  have := List.mem_of_getLast?_eq_some h
  simpa using (List.mem_filter.1 this)

theorem lastAt_isSome {saved : List Snapshot} {ts : Int64} (h : ts ∈ saved.map Snapshot.timestamp) :
    (lastAt saved ts).isSome := by
  obtain ⟨s, hs, rfl⟩ := List.mem_map.1 h
  rw [lastAt, List.getLast?_isSome, ne_eq, List.filter_eq_nil_iff]
  exact fun hall => by simpa using hall s hs

/-- `loadLatest` picks, among the snapshots saved last at their timestamps, the one with the
greatest timestamp. Source: `snapshot.go` `LoadLatest`. Kind: L -/
theorem loadLatest_eq (saved : List Snapshot) :
    loadLatest saved = (maxTimestamp (saved.map Snapshot.timestamp)).bind (lastAt saved) := by
  induction saved using List.reverseRecOn with
  | nil => rfl
  | append_singleton l s ih =>
    have hstep : loadLatest (l ++ [s]) = match loadLatest l with
        | none => some s
        | some b => if s.timestamp.slt b.timestamp then some b else some s := by
      rw [loadLatest, loadLatest, List.foldl_append]
      rfl
    have hmax : maxTimestamp ((l ++ [s]).map Snapshot.timestamp) =
        maxStep (maxTimestamp (l.map Snapshot.timestamp)) s.timestamp := by
      simp only [maxTimestamp, List.map_append, List.foldl_append, List.map_cons, List.map_nil,
        List.foldl_cons, List.foldl_nil]
    have hs := maxTimestamp_spec (l.map Snapshot.timestamp)
    rw [hstep, hmax, ih]
    revert hs
    cases maxTimestamp (l.map Snapshot.timestamp) with
    | none =>
      intro hs
      rw [List.map_eq_nil_iff.1 hs]
      simp [maxStep, lastAt]
    | some m =>
      rintro ⟨hm, -⟩
      obtain ⟨b, hb⟩ := Option.isSome_iff_exists.1 (lastAt_isSome hm)
      obtain ⟨-, rfl⟩ := lastAt_spec hb
      simp only [Option.some_bind, hb, maxStep, BitVec.slt, decide_eq_true_eq]
      by_cases hlt : s.timestamp.toInt < b.timestamp.toInt
      · rw [if_pos hlt, if_neg (Int.not_lt.2 hlt.le), Option.some_bind, lastAt_append,
          if_neg (fun e => (lt_irrefl _ (e ▸ hlt))), hb]
      · rw [if_neg hlt]
        by_cases hgt : b.timestamp.toInt < s.timestamp.toInt
        · rw [if_pos hgt, Option.some_bind, lastAt_append, if_pos rfl]
        · have he : s.timestamp = b.timestamp := BitVec.toInt_inj.1 (by omega)
          rw [if_neg hgt, Option.some_bind, lastAt_append, if_pos he]

/-- After `saved` were saved, `LoadLatest` reads the timestamps of exactly the saved snapshots.
Source: `snapshot.go` `Save`, `LoadLatest`. Kind: L -/
theorem DirInv.mem_timestamps {saved : List Snapshot} {d : Dir} (hd : DirInv saved d)
    (ts : Int64) :
    ts ∈ d.filterMap (fun e => snapshotTimestamp e.1) ↔ ts ∈ saved.map Snapshot.timestamp := by
  rw [List.mem_filterMap]
  constructor
  · rintro ⟨e, he, hts⟩
    have hsome := Dir.read_of_mem he
    rw [hd.canonical e he ts hts, hd.read, Option.isSome_map'] at hsome
    obtain ⟨b, hb⟩ := Option.isSome_iff_exists.1 hsome
    obtain ⟨hmem, rfl⟩ := lastAt_spec hb
    exact List.mem_map_of_mem _ hmem
  · intro h
    obtain ⟨b, hb⟩ := Option.isSome_iff_exists.1 (lastAt_isSome h)
    have hr := hd.read ts
    rw [hb, Option.map_some'] at hr
    exact ⟨_, Dir.mem_of_read hr, snapshotTimestamp_snapshotPath ts⟩

/-- The snapshots the codec reads back: names of at most 255 bytes, fewer than `2 ^ 32` symbols
and orders.
Source: `snapshot.go` `writeSnapshot` (a `uint8` name length, `uint32` counts)
Kind: D -/
structure Snapshot.Fits (s : Snapshot) : Prop where
  names : ∀ sym ∈ s.symbols, sym.name.length ≤ 255
  symbols : s.symbols.length < 2 ^ 32
  orders : s.orders.length < 2 ^ 32

/-- `LoadLatest` of a directory that holds the files of the saved snapshots returns what
`loadLatest` picks among them.
Source: `snapshot.go` `(*Snapshotter).LoadLatest`, `readSnapshot`
Kind: L -/
theorem DirInv.loadLatestDir_eq {saved : List Snapshot} {d : Dir} (hinv : DirInv saved d)
    (hfit : ∀ s ∈ saved, s.Fits) : loadLatestDir d = .ok (loadLatest saved) := by
  have hs := maxTimestamp_spec (saved.map Snapshot.timestamp)
  rw [loadLatestDir, maxTimestamp_congr hinv.mem_timestamps, loadLatest_eq]
  revert hs
  cases maxTimestamp (saved.map Snapshot.timestamp) with
  | none => intro; rfl
  | some m =>
    rintro ⟨hm, -⟩
    obtain ⟨b, hb⟩ := Option.isSome_iff_exists.1 (lastAt_isSome hm)
    have hf := hfit b (lastAt_spec hb).1
    have hread : readSnapshot (writeSnapshot b) = .ok b := by
      simpa using readSnapshot_writeSnapshot hf.names hf.symbols hf.orders []
    simp only [hinv.read, hb, Option.map_some', hread, Option.some_bind]

/-- After any run of `Save` calls, some of them cut by a crash before their rename, in a directory
that held no file whose name `LoadLatest` reads, `LoadLatest` succeeds and returns what
`loadLatest` picks among the snapshots whose `Save` completed: none if there is none, and
otherwise the one saved last among those with the greatest timestamp. The temporary files that
crashes leave behind are never read.
Source: `snapshot.go` `(*Snapshotter).Save`, `(*Snapshotter).LoadLatest`,
`(*Snapshotter).snapshotPath`, `writeSnapshot`, `readSnapshot`
Kind: P -/
theorem loadLatestDir_run {d : Dir} (hd : ∀ e ∈ d, snapshotTimestamp e.1 = none)
    (ops : List SaveOp) (hfit : ∀ s ∈ SaveOp.snapshots ops, s.Fits) :
    loadLatestDir (ops.foldl SaveOp.apply d) = .ok (loadLatest (SaveOp.snapshots ops)) := by
  have hinv := (DirInv.init hd).run ops
  rw [List.nil_append] at hinv
  exact hinv.loadLatestDir_eq hfit

/-- Two snapshots saved at `-3` and `5`, a third `Save` at `7` cut by a crash: `LoadLatest`
returns the one saved at `5`. -/
theorem loadLatestDir_crashed_save :
    (∀ e ∈ ([] : Dir), snapshotTimestamp e.1 = none) ∧
    (∀ s ∈ SaveOp.snapshots [.saved ⟨5, [], []⟩, .saved ⟨-3, [], []⟩, .crashed ⟨7, [], []⟩ 9],
      s.Fits) ∧
    loadLatestDir ([SaveOp.saved ⟨5, [], []⟩, .saved ⟨-3, [], []⟩, .crashed ⟨7, [], []⟩ 9].foldl
      SaveOp.apply []) =
      .ok (loadLatest (SaveOp.snapshots [.saved ⟨5, [], []⟩, .saved ⟨-3, [], []⟩,
        .crashed ⟨7, [], []⟩ 9])) :=
  have hfit : ∀ s ∈ SaveOp.snapshots [.saved ⟨5, [], []⟩, .saved ⟨-3, [], []⟩,
      .crashed ⟨7, [], []⟩ 9], s.Fits := by
    simp only [SaveOp.snapshots, List.mem_cons, List.mem_nil_iff, or_false]
    rintro s (rfl | rfl) <;> exact ⟨by simp, by simp, by simp⟩
  ⟨by simp, hfit, loadLatestDir_run (by simp) _ hfit⟩

end GoTrader.Persistence
