import GoTrader.Matching.Order

/-!
# Big-endian words and full reads

What the journal and the snapshot files are made of, from Go's standard library as
`persistence` calls it:

* `beBytes n v` — the `n` low bytes of `v`, most significant first (`binary.BigEndian.PutUintN`),
  and `beValue` — the number a byte string spells (`binary.BigEndian.UintN`);
* `beValue_beBytes` — reading back gives `v % 256 ^ n`; `beBytes_beValue` — writing back the
  value of an `n`-byte string gives the string; so `uint64_putUint64` and
  `putUint64_uint64` (and the `uint32` pair) are the two round trips of a field;
* `readFull n r` — `io.ReadFull` of `n` bytes from the stream `r`: `io.EOF` when nothing is
  left, `io.ErrUnexpectedEOF` when fewer than `n` bytes are.

A stream is the list of the bytes still unread; a reader returns what it read and the rest.
-/

namespace GoTrader.Persistence

/-! ## Numbers as bytes -/

/-- The `n` low bytes of `v`, most significant first.
Source: Go `encoding/binary` `BigEndian.PutUint32`, `PutUint64`
Kind: D
Fidelity: exact -/
def beBytes : Nat → Nat → List UInt8
  | 0, _ => []
  | n + 1, v => beBytes n (v / 256) ++ [UInt8.ofNat (v % 256)]

/-- The number the bytes spell, most significant first.
Source: Go `encoding/binary` `BigEndian.Uint32`, `Uint64`
Kind: D
Fidelity: exact -/
def beValue (b : List UInt8) : Nat := b.foldl (fun acc x => acc * 256 + x.toNat) 0

@[simp] theorem length_beBytes (n v : Nat) : (beBytes n v).length = n := by
  induction n generalizing v <;> simp [beBytes, *]

theorem beValue_append_singleton (b : List UInt8) (x : UInt8) :
    beValue (b ++ [x]) = beValue b * 256 + x.toNat := by
  simp [beValue, List.foldl_append]

theorem UInt8.toNat_ofNat_mod (v : Nat) : (UInt8.ofNat (v % 256)).toNat = v % 256 :=
  UInt8.toNat_ofNat_of_lt (Nat.mod_lt _ (by decide))

/-- Reading back `n` bytes of `v` gives `v` modulo `256 ^ n`. Source: none. Kind: L -/
theorem beValue_beBytes (n v : Nat) : beValue (beBytes n v) = v % 256 ^ n := by
  induction n generalizing v with
  | zero => simp [beBytes, beValue, Nat.mod_one]
  | succ n ih =>
    rw [beBytes, beValue_append_singleton, ih, UInt8.toNat_ofNat_mod, pow_succ', Nat.mod_mul]
    omega

/-- An `n`-byte string spells a number below `256 ^ n`. Source: none. Kind: L -/
theorem beValue_lt (b : List UInt8) : beValue b < 256 ^ b.length := by
  induction b using List.reverseRecOn with
  | nil => simp [beValue]
  | append_singleton b x ih =>
    rw [beValue_append_singleton, List.length_append, List.length_singleton, pow_succ]
    have := x.toNat_lt_size
    have : (beValue b + 1) * 256 ≤ 256 ^ b.length * 256 := Nat.mul_le_mul_right _ ih
    simp only [UInt8.size] at *
    omega

/-- Writing back the value of a byte string, at its length, gives the string. Source: none.
Kind: L -/
theorem beBytes_beValue (b : List UInt8) : beBytes b.length (beValue b) = b := by
  induction b using List.reverseRecOn with
  | nil => rfl
  | append_singleton b x ih =>
    have hx := x.toNat_lt_size
    simp only [UInt8.size] at hx
    have hdiv : (beValue b * 256 + x.toNat) / 256 = beValue b := by omega
    have hmod : (beValue b * 256 + x.toNat) % 256 = x.toNat := by omega
    rw [List.length_append, List.length_singleton, beBytes, beValue_append_singleton, hdiv, hmod,
      ih]
    exact congrArg (fun y => b ++ [y]) (UInt8.toNat.inj (UInt8.toNat_ofNat_of_lt x.toNat_lt_size))

/-! ## Go's fixed-width words -/

/-- Source: Go `encoding/binary` `BigEndian.PutUint32`. Kind: D. Fidelity: exact -/
def putUint32 (v : UInt32) : List UInt8 := beBytes 4 v.toNat

/-- Source: Go `encoding/binary` `BigEndian.PutUint64`. Kind: D. Fidelity: exact -/
def putUint64 (v : UInt64) : List UInt8 := beBytes 8 v.toNat

/-- The word in the first four bytes.
Source: Go `encoding/binary` `BigEndian.Uint32`
Kind: D
Fidelity: exact on four bytes or more (Go panics on fewer) -/
def uint32 (b : List UInt8) : UInt32 := UInt32.ofNat (beValue (b.take 4))

/-- The word in the first eight bytes.
Source: Go `encoding/binary` `BigEndian.Uint64`
Kind: D
Fidelity: exact on eight bytes or more (Go panics on fewer) -/
def uint64 (b : List UInt8) : UInt64 := UInt64.ofNat (beValue (b.take 8))

/-- Go's conversion `uint64(x)` of an `int64`: the same 64 bits. Source: Go. Kind: D -/
def uint64OfInt64 (x : Int64) : UInt64 := UInt64.ofNat x.toNat

/-- Go's conversion `int64(v)` of a `uint64`: the same 64 bits. Source: Go. Kind: D -/
def int64OfUint64 (v : UInt64) : Int64 := BitVec.ofNat 64 v.toNat

@[simp] theorem length_putUint32 (v : UInt32) : (putUint32 v).length = 4 := length_beBytes _ _

@[simp] theorem length_putUint64 (v : UInt64) : (putUint64 v).length = 8 := length_beBytes _ _

theorem uint32_putUint32 (v : UInt32) : uint32 (putUint32 v) = v := by
  rw [uint32, List.take_of_length_le (by simp), putUint32, beValue_beBytes,
    Nat.mod_eq_of_lt (by simpa using v.toNat_lt_size)]
  exact UInt32.toNat.inj (UInt32.toNat_ofNat_of_lt v.toNat_lt_size)

theorem uint64_putUint64 (v : UInt64) : uint64 (putUint64 v) = v := by
  rw [uint64, List.take_of_length_le (by simp), putUint64, beValue_beBytes,
    Nat.mod_eq_of_lt (by simpa using v.toNat_lt_size)]
  exact UInt64.toNat.inj (UInt64.toNat_ofNat_of_lt v.toNat_lt_size)

theorem putUint32_uint32 {b : List UInt8} (h : b.length = 4) : putUint32 (uint32 b) = b := by
  have hlt := beValue_lt b
  rw [h] at hlt
  rw [putUint32, uint32, List.take_of_length_le (by omega),
    UInt32.toNat_ofNat_of_lt (by simpa using hlt), ← h, beBytes_beValue]

theorem putUint64_uint64 {b : List UInt8} (h : b.length = 8) : putUint64 (uint64 b) = b := by
  have hlt := beValue_lt b
  rw [h] at hlt
  rw [putUint64, uint64, List.take_of_length_le (by omega),
    UInt64.toNat_ofNat_of_lt (by simpa using hlt), ← h, beBytes_beValue]

theorem int64OfUint64_uint64OfInt64 (x : Int64) : int64OfUint64 (uint64OfInt64 x) = x := by
  apply BitVec.eq_of_toNat_eq
  rw [int64OfUint64, uint64OfInt64, UInt64.toNat_ofNat_of_lt x.isLt, BitVec.toNat_ofNat,
    Nat.mod_eq_of_lt x.isLt]

theorem uint64OfInt64_int64OfUint64 (v : UInt64) : uint64OfInt64 (int64OfUint64 v) = v := by
  rw [uint64OfInt64, int64OfUint64, BitVec.toNat_ofNat, Nat.mod_eq_of_lt v.toNat_lt_size]
  exact UInt64.toNat.inj (UInt64.toNat_ofNat_of_lt v.toNat_lt_size)

/-! ## Slices and full reads -/

/-- Go's slice expression `b[i:j]`. Source: Go. Kind: D. Fidelity: exact for `i ≤ j ≤ len(b)` -/
def slice (b : List UInt8) (i j : Nat) : List UInt8 := (b.drop i).take (j - i)

@[simp] theorem length_slice (b : List UInt8) (i j : Nat) :
    (slice b i j).length = min (j - i) (b.length - i) := by
  simp [slice]

/-- A slice past a prefix is a slice of what follows it. Source: none. Kind: L -/
theorem slice_append_of_le {a t : List UInt8} {i j : Nat} (h : a.length ≤ i) :
    slice (a ++ t) i j = slice t (i - a.length) (j - a.length) := by
  simp only [slice, List.drop_append_eq_append_drop, List.drop_eq_nil_of_le h, List.nil_append]
  congr 1
  omega

theorem slice_zero_append {x t : List UInt8} {j : Nat} (h : x.length = j) :
    slice (x ++ t) 0 j = x := by
  subst h
  simp [slice]

/-- Adjacent slices make one: `b[i:j]` then `b[j:k]` is `b[i:k]`. Source: none. Kind: L -/
theorem slice_append_slice (b : List UInt8) {i j k : Nat} (hij : i ≤ j) (hjk : j ≤ k) :
    slice b i j ++ slice b j k = slice b i k := by
  rw [slice, slice, slice, show k - i = (j - i) + (k - j) by omega, List.take_add, List.drop_drop,
    Nat.add_sub_cancel' hij]

theorem singleton_getD_eq_slice (b : List UInt8) {i : Nat} (h : i < b.length) :
    [b.getD i 0] = slice b i (i + 1) := by
  simp [slice, List.getD_eq_getElem?_getD, List.getElem?_eq_getElem h, List.take_one,
    List.head?_drop]

theorem slice_zero_of_length {b : List UInt8} {n : Nat} (h : b.length = n) : slice b 0 n = b := by
  subst h
  simp [slice]

theorem getD_append_of_le {a t : List UInt8} {i : Nat} (h : a.length ≤ i) (d : UInt8) :
    (a ++ t).getD i d = t.getD (i - a.length) d := by
  simp [List.getD_eq_getElem?_getD, List.getElem?_append_right h]

theorem drop_append_of_le {a t : List UInt8} {i : Nat} (h : a.length ≤ i) :
    (a ++ t).drop i = t.drop (i - a.length) := by
  rw [List.drop_append_eq_append_drop, List.drop_eq_nil_of_le h, List.nil_append]

theorem getD_singleton_append (x d : UInt8) (t : List UInt8) : ([x] ++ t).getD 0 d = x := rfl

/-- A word read from an 8-byte slice and written back is the slice. Source: none. Kind: L -/
theorem putUint64_uint64_slice {b : List UInt8} {i j : Nat} (hj : j = i + 8) (hb : j ≤ b.length) :
    putUint64 (uint64 (slice b i j)) = slice b i j :=
  putUint64_uint64 (by simp; omega)

theorem putUint32_uint32_slice {b : List UInt8} {i j : Nat} (hj : j = i + 4) (hb : j ≤ b.length) :
    putUint32 (uint32 (slice b i j)) = slice b i j :=
  putUint32_uint32 (by simp; omega)

/-- The errors `io.ReadFull` returns.
Source: Go `io` `EOF`, `ErrUnexpectedEOF`
Kind: D -/
inductive ReadError where
  | eof
  | unexpectedEOF
deriving DecidableEq, Repr

/-- `io.ReadFull` of `n` bytes: the bytes and the rest of the stream, `io.EOF` if the stream is
empty, `io.ErrUnexpectedEOF` if it ends before `n` bytes.
Source: Go `io` `ReadFull`
Kind: D
Fidelity: exact on a stream that returns its bytes and then `io.EOF` (a file through
`bufio.Reader`) -/
def readFull (n : Nat) (r : List UInt8) : Except ReadError (List UInt8 × List UInt8) :=
  if n ≤ r.length then .ok (r.take n, r.drop n)
  else if r = [] then .error .eof
  else .error .unexpectedEOF

theorem readFull_append {b : List UInt8} {n : Nat} (h : b.length = n) (rest : List UInt8) :
    readFull n (b ++ rest) = .ok (b, rest) := by
  subst h
  simp [readFull]

theorem readFull_of_length_lt {r : List UInt8} {n : Nat} (h : r.length < n) :
    readFull n r = .error (if r.length = 0 then .eof else .unexpectedEOF) := by
  simp only [readFull, if_neg (Nat.not_le_of_lt h), List.length_eq_zero]
  split <;> rfl

theorem except_ok_bind {ε α β : Type} (a : α) (f : α → Except ε β) :
    (Except.ok a >>= f) = f a := rfl

theorem except_mapError_ok {ε ε' α : Type} (f : ε → ε') (a : α) :
    (Except.ok a : Except ε α).mapError f = .ok a := rfl

theorem except_error_bind {ε α β : Type} (x : ε) (f : α → Except ε β) :
    (Except.error x >>= f) = .error x := rfl

theorem except_mapError_error {ε ε' α : Type} (f : ε → ε') (x : ε) :
    (Except.error x : Except ε α).mapError f = .error (f x) := rfl

end GoTrader.Persistence
