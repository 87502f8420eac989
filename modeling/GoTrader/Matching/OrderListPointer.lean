import GoTrader.Matching.Level

/-!
# The order list at the pointer level

`level.go`'s `OrderList` is intrusive: the list keeps `Head`, `Tail` and `Size`, and every
`*OrderNode` its own `Prev` and `Next`. `Level.lean` represents a list by the sequence of nodes
those pointers spell. This file models the pointers themselves and shows that the representation
is sound for every list the two operations build:

* `NodeLinks` — the `Prev`/`Next` fields of all nodes, by address; `PList` — the list's header;
  `PList.pushBack`, `PList.remove`, `PList.front` and `PList.empty`, statement by statement;
* `Segment h p xs n` — the nodes `xs` are linked both ways between `p` and `n`;
  `Holds h ol xs` — `ol` is a well-formed list of the nodes `xs`: linked between `nil` and `nil`,
  `Head` and `Tail` the first and the last, `Size` their number, no node twice and none `nil`;
* `segment_append`, `segment_congr`, `segment_setNext_getLast`, `segment_setPrev_head` — a segment
  splits anywhere, depends only on its own nodes' links, and moves an end when the end node's
  outer link is re-pointed; `segment_reverse` — read along `Prev` it is a segment of the flipped
  links, so `Segment.prev_next` gives `Segment.next_prev`;
* `Holds.pushBack` and `Holds.remove` (through `remove_spec`) — each operation keeps `Holds`,
  the first appending the node and the second erasing it, and changes the links of no other node
  outside the list;
* `Holds.walk`, `Holds.head_eq_zero_iff`, `Holds.tail_eq_zero_iff` — the walk along `Next`
  from `Head` visits `xs` and stops at `nil`, and `Head` and `Tail` are `nil` exactly when
  `Size` is `0`;
* `ListReachable` — the lists built from `&OrderList{}` by `PushBack` of nodes not in the list
  and `Remove` of nodes in it, each paired with the abstract `OrderList` the same calls build;
  `ListReachable.wellFormed` — every such list is `WellFormed` and spells the abstract sequence.

Addresses are 64-bit words and `nil` is `0`. That `2 ^ 64 - 1` addresses cannot hold `2 ^ 64`
distinct nodes is what keeps `ol.Size++` from wrapping (`length_lt_of_nodup`).
-/

namespace GoTrader.Matching

/-! ## NodeLinks and list headers -/

/-- The `Prev` and `Next` fields of every `*OrderNode`, by address. `nil` is `0`, and every
other address holds a node.
Source: `level.go` `OrderNode` (`Prev`, `Next`)
Kind: D
Fidelity: abstracted (the node's other fields, which the list never reads or writes, are left
out; addresses are 64-bit words) -/
structure NodeLinks where
  prev : UInt64 → UInt64
  next : UInt64 → UInt64

namespace NodeLinks

/-- The store `p.Prev = v`. Source: `level.go` (field store). Kind: D. Fidelity: exact -/
def setPrev (h : NodeLinks) (p v : UInt64) : NodeLinks :=
  { h with prev := Function.update h.prev p v }

/-- The store `p.Next = v`. Source: `level.go` (field store). Kind: D. Fidelity: exact -/
def setNext (h : NodeLinks) (p v : UInt64) : NodeLinks :=
  { h with next := Function.update h.next p v }

@[simp] theorem setPrev_prev (h : NodeLinks) (p v q : UInt64) :
    (h.setPrev p v).prev q = if q = p then v else h.prev q := Function.update_apply ..

@[simp] theorem setPrev_next (h : NodeLinks) (p v : UInt64) : (h.setPrev p v).next = h.next := rfl

@[simp] theorem setNext_next (h : NodeLinks) (p v q : UInt64) :
    (h.setNext p v).next q = if q = p then v else h.next q := Function.update_apply ..

@[simp] theorem setNext_prev (h : NodeLinks) (p v : UInt64) : (h.setNext p v).prev = h.prev := rfl

end NodeLinks

/-- An `OrderList` header: `Head`, `Tail` and `Size`.
Source: `level.go` `OrderList`
Kind: D
Fidelity: exact -/
structure PList where
  head : UInt64
  tail : UInt64
  size : UInt64
deriving DecidableEq, Repr

namespace PList

/-- `&OrderList{}`. Source: the `matching` tests' `TestOrderList`. Kind: D. Fidelity: exact -/
def new : PList := ⟨0, 0, 0⟩

/-- Append a node at the tail; `none` is the `nil` dereference when `order` is `nil`.
Source: `level.go` `(*OrderList).PushBack`
Kind: D
Fidelity: exact -/
def pushBack (h : NodeLinks) (ol : PList) (order : UInt64) : Option (NodeLinks × PList) :=
  if order = 0 then none else
  let h := (h.setNext order 0).setPrev order ol.tail
  let (h, ol) := if ol.tail ≠ 0 then (h.setNext ol.tail order, ol)
    else (h, { ol with head := order })
  some (h, { ol with tail := order, size := ol.size + 1 })

/-- Unlink a node; `none` is the `nil` dereference when `order` is `nil`. Each statement reads the
links as the statements before it left them.
Source: `level.go` `(*OrderList).Remove`
Kind: D
Fidelity: exact -/
def remove (h : NodeLinks) (ol : PList) (order : UInt64) : Option (NodeLinks × PList) :=
  if order = 0 then none else
  let (h, ol) := if h.prev order ≠ 0 then (h.setNext (h.prev order) (h.next order), ol)
    else (h, { ol with head := h.next order })
  let (h, ol) := if h.next order ≠ 0 then (h.setPrev (h.next order) (h.prev order), ol)
    else (h, { ol with tail := h.prev order })
  some ((h.setNext order 0).setPrev order 0, { ol with size := ol.size - 1 })

/-- Source: `level.go` `(*OrderList).Front`. Kind: D. Fidelity: exact -/
def front (ol : PList) : UInt64 := ol.head

/-- Source: `level.go` `(*OrderList).Empty`. Kind: D. Fidelity: exact -/
def empty (ol : PList) : Bool := ol.size == 0

end PList

/-! ## Segment segments -/

/-- The nodes `xs` are linked both ways in order: the first one's `Prev` is `p`, every `Next` is
the node after it, and the last one's `Next` is `n`.
Source: none: the representation of a list
Kind: D -/
def Segment (h : NodeLinks) : UInt64 → List UInt64 → UInt64 → Prop
  | _, [], _ => True
  | p, x :: xs, n => h.prev x = p ∧ h.next x = xs.head?.getD n ∧ Segment h x xs n

variable {h h' : NodeLinks} {p n q v : UInt64} {xs l r : List UInt64}

@[simp] theorem segment_nil : Segment h p [] n := trivial

@[simp] theorem segment_cons {x : UInt64} :
    Segment h p (x :: xs) n ↔ h.prev x = p ∧ h.next x = xs.head?.getD n ∧ Segment h x xs n :=
  Iff.rfl

theorem head?_append_getD : (l ++ r).head?.getD n = l.head?.getD (r.head?.getD n) := by
  cases l <;> rfl

theorem getLast?_cons_getD {x : UInt64} : (x :: l).getLast?.getD p = l.getLast?.getD x := by
  simp [List.getLast?_cons]

theorem getLast?_getD_mem {x : UInt64} : (x :: l).getLast?.getD p ∈ x :: l := by
  simpa [getLast?_cons_getD] using List.getLastD_mem_cons l x

/-- A segment splits at any point into two, each linked to the other's end.
Source: none. Kind: L -/
theorem segment_append :
    Segment h p (l ++ r) n ↔
      Segment h p l (r.head?.getD n) ∧ Segment h (l.getLast?.getD p) r n := by
  induction l generalizing p with
  | nil => simp
  | cons x l ih =>
    simp only [List.cons_append, segment_cons, ih, head?_append_getD, getLast?_cons_getD, and_assoc]

/-- Only the links of the segment's own nodes matter. Source: none. Kind: L -/
theorem segment_congr (hag : ∀ q ∈ xs, h'.prev q = h.prev q ∧ h'.next q = h.next q) :
    Segment h' p xs n ↔ Segment h p xs n := by
  induction xs generalizing p with
  | nil => rfl
  | cons x xs ih =>
    simp only [segment_cons, (hag x (.head _)).1, (hag x (.head _)).2,
      ih fun q hq => hag q (.tail _ hq)]

/-- Re-pointing the last node's `Next` moves the segment's far end. Source: none. Kind: L -/
theorem segment_setNext_getLast (hnd : xs.Nodup) (hl : Segment h p xs n) :
    Segment (h.setNext (xs.getLast?.getD p) v) p xs v := by
  induction xs generalizing p with
  | nil => trivial
  | cons x xs ih =>
    obtain ⟨hp, hn, hl⟩ := hl
    rw [List.nodup_cons] at hnd
    cases xs with
    | nil => simp_all
    | cons y ys =>
      have hx : x ≠ (y :: ys).getLast?.getD x := fun e => hnd.1 (e ▸ getLast?_getD_mem)
      simp_all [getLast?_cons_getD]

/-- Re-pointing the first node's `Prev` moves the segment's near end. Source: none. Kind: L -/
theorem segment_setPrev_head (hnd : xs.Nodup) (hl : Segment h p xs n) :
    Segment (h.setPrev (xs.head?.getD n) v) v xs n := by
  cases xs with
  | nil => trivial
  | cons x xs =>
    obtain ⟨-, hn, hl⟩ := hl
    rw [List.nodup_cons] at hnd
    refine ⟨by simp, by simpa using hn, (segment_congr fun q hq => ?_).2 hl⟩
    simp [show q ≠ x from fun e => hnd.1 (e ▸ hq)]

/-- The walk along `Next` from `p` visits the nodes `xs` and then reaches `nil`.
Source: `avltree.go` `(*AVLTree).Remove` (`for order := level.OrderList.Head; order != nil;
order = order.Next`)
Kind: D
Fidelity: exact -/
inductive Walk (h : NodeLinks) : UInt64 → List UInt64 → Prop
  | nil : Walk h 0 []
  | cons {p : UInt64} {xs : List UInt64} : p ≠ 0 → Walk h (h.next p) xs → Walk h p (p :: xs)

/-- The walk is determined by where it starts. Source: none. Kind: L -/
theorem Walk.unique {ys : List UInt64} (h1 : Walk h p xs) (h2 : Walk h p ys) :
    xs = ys := by
  induction h1 generalizing ys with
  | nil => cases h2 with
    | nil => rfl
    | cons hp _ => exact absurd rfl hp
  | cons hp _ ih => cases h2 with
    | nil => exact absurd rfl hp
    | cons _ h2 => rw [ih h2]

/-- A linked segment is walked along `Next` from its first node to its far end, and on.
Source: none. Kind: L -/
theorem Segment.walk_append (hl : Segment h p xs n) (h0 : 0 ∉ xs) {ys : List UInt64}
    (hn : Walk h n ys) : Walk h (xs.head?.getD n) (xs ++ ys) := by
  induction xs generalizing p with
  | nil => exact hn
  | cons x xs ih =>
    obtain ⟨-, hx, hl⟩ := hl
    rw [List.mem_cons, not_or] at h0
    exact .cons (Ne.symm h0.1) (hx ▸ ih hl h0.2)

/-- The links read the other way: `Prev` for `Next` and `Next` for `Prev`.
Source: none. Kind: D -/
def NodeLinks.flip (h : NodeLinks) : NodeLinks := ⟨h.next, h.prev⟩

@[simp] theorem NodeLinks.flip_prev : h.flip.prev = h.next := rfl

@[simp] theorem NodeLinks.flip_next : h.flip.next = h.prev := rfl

/-- A segment read backwards along `Prev` is a segment of the flipped links.
Source: none. Kind: L -/
theorem segment_reverse : Segment h p xs n ↔ Segment h.flip n xs.reverse p := by
  induction xs generalizing p with
  | nil => simp
  | cons x xs ih =>
    simp only [segment_cons, List.reverse_cons, segment_append, ← ih, List.getLast?_reverse,
      NodeLinks.flip_prev, NodeLinks.flip_next, List.head?_cons, List.head?_nil, Option.getD_some,
      Option.getD_none, segment_nil, and_true]
    tauto

/-- A `Next` inside a segment has its `Prev` back-link. Source: none. Kind: L -/
theorem Segment.prev_next {x : UInt64} (hl : Segment h p xs n) (hx : x ∈ xs)
    (hn : h.next x ≠ n) : h.prev (h.next x) = x := by
  induction xs generalizing p with
  | nil => cases hx
  | cons y ys ih =>
    obtain ⟨-, hy, hl⟩ := hl
    rcases List.mem_cons.1 hx with rfl | hx
    · cases ys with
      | nil => exact absurd hy hn
      | cons z zs => rw [hy]; exact hl.1
    · exact ih hl hx

/-- A `Prev` inside a segment has its `Next` back-link. Source: none. Kind: L -/
theorem Segment.next_prev {x : UInt64} (hl : Segment h p xs n) (hx : x ∈ xs)
    (hp : h.prev x ≠ p) : h.next (h.prev x) = x :=
  (segment_reverse.1 hl).prev_next (h := h.flip) (List.mem_reverse.2 hx) hp

/-! ## Well-formed lists -/

/-- `ol` is a well-formed list of the nodes `xs`: linked both ways from `nil` to `nil`, `Head`
the first node and `Tail` the last (`nil` when there is none), `Size` their number, no node
twice and none `nil`.
Source: none: the representation invariant of `level.go` `OrderList`
Kind: D -/
structure Holds (h : NodeLinks) (ol : PList) (xs : List UInt64) : Prop where
  segment : Segment h 0 xs 0
  head : ol.head = xs.head?.getD 0
  tail : ol.tail = xs.getLast?.getD 0
  size : ol.size.toNat = xs.length
  nodup : xs.Nodup
  nonnil : 0 ∉ xs

/-- Distinct non-`nil` addresses number fewer than `2 ^ 64`. Source: none. Kind: L -/
theorem length_lt_of_nodup (hnd : xs.Nodup) (h0 : 0 ∉ xs) : xs.length < 2 ^ 64 := by
  have hsub : xs.map UInt64.toNat ⊆ List.range' 1 (2 ^ 64 - 1) := by
    intro a ha
    obtain ⟨x, hx, rfl⟩ := List.mem_map.1 ha
    have hx0 : x.toNat ≠ 0 := fun e => h0 (UInt64.toNat.inj (b := 0) e ▸ hx)
    have := x.toNat_lt_size
    simp only [List.mem_range'_1, UInt64.size] at *
    omega
  have := ((hnd.map fun _ _ => UInt64.toNat.inj).subperm hsub).length_le
  simp only [List.length_map, List.length_range'] at this
  omega

/-- `PushBack` of a node not in the list appends it, counts it, and changes the links of no
other node outside the list.
Source: `level.go` `(*OrderList).PushBack`
Kind: L -/
theorem Holds.pushBack {ol : PList} {order : UInt64} (hH : Holds h ol xs) (ho : order ≠ 0)
    (hnew : order ∉ xs) :
    ∃ h' ol', PList.pushBack h ol order = some (h', ol') ∧ Holds h' ol' (xs ++ [order]) ∧
      ol'.size = ol.size + 1 ∧
      ∀ q, q ∉ xs → q ≠ order → h'.prev q = h.prev q ∧ h'.next q = h.next q := by
  have hnd : (xs ++ [order]).Nodup :=
    List.nodup_append.2 ⟨hH.nodup, List.nodup_singleton _, by simpa using hnew⟩
  have hlen := length_lt_of_nodup hnd (by simpa [Ne.symm ho] using hH.nonnil)
  have hsize : (ol.size + 1).toNat = (xs ++ [order]).length := by
    simp only [List.length_append, List.length_singleton] at hlen ⊢
    have h1 : (1 : UInt64).toNat = 1 := rfl
    rw [UInt64.toNat_add_of_lt (by rw [hH.size, h1]; omega), hH.size, h1]
  have h1 : Segment ((h.setNext order 0).setPrev order ol.tail) 0 xs 0 :=
    (segment_congr fun q hq => by simp [show q ≠ order from fun e => hnew (e ▸ hq)]).2
      hH.segment
  rcases xs.eq_nil_or_concat with rfl | ⟨l, t, rfl⟩
  · have ht : ol.tail = 0 := hH.tail
    have hpb : PList.pushBack h ol order =
        some ((h.setNext order 0).setPrev order 0, ⟨order, order, ol.size + 1⟩) := by
      simp [PList.pushBack, ho, ht]
    exact ⟨_, _, hpb, ⟨by simp, rfl, rfl, hsize, hnd, by simpa using Ne.symm ho⟩, rfl,
      fun q _ hq => by simp [hq]⟩
  · rw [List.concat_eq_append] at *
    have ht : ol.tail = t := by simpa using hH.tail
    have ht0 : t ≠ 0 := fun e => hH.nonnil (by simp [e])
    have hto : t ≠ order := fun e => hnew (by simp [e])
    have hpb : PList.pushBack h ol order =
        some (((h.setNext order 0).setPrev order t).setNext t order,
          ⟨ol.head, order, ol.size + 1⟩) := by
      simp [PList.pushBack, ho, ht, ht0]
    refine ⟨_, _, hpb, ⟨?_, by simpa [head?_append_getD] using hH.head, by simp, hsize, hnd,
      by simpa [Ne.symm ho] using hH.nonnil⟩, rfl, fun q hq hqo => ?_⟩
    · rw [segment_append]
      refine ⟨by simpa [ht] using segment_setNext_getLast (v := order) hH.nodup h1, ?_⟩
      simp [Ne.symm hto, hto]
    · simp [hqo, show q ≠ t from fun e => hq (by simp [e])]

/-- The links after `a.Next = b`, `b.Prev = a` and the node's own two cleared, where `a` and `b`
are the node's `Prev` and `Next`: `Remove` without its `nil` guards.
Source: none: what `Remove` does away from `nil`
Kind: D -/
def NodeLinks.unlink (h : NodeLinks) (order : UInt64) : NodeLinks :=
  (((h.setNext (h.prev order) (h.next order)).setPrev (h.next order) (h.prev order)).setNext
    order 0).setPrev order 0

/-- What `Remove` does to a node that is not its own `Prev`: away from `nil` the links are
`h.unlink order`; `Head` moves to the node's `Next` when its `Prev` is `nil`, `Tail` to its `Prev`
when its `Next` is, and `Size` drops by one.
Source: `level.go` `(*OrderList).Remove`
Kind: L -/
theorem remove_spec {ol : PList} {order : UInt64} (ho : order ≠ 0) (ha : h.prev order ≠ order) :
    ∃ h', PList.remove h ol order = some (h',
        ⟨if h.prev order = 0 then h.next order else ol.head,
          if h.next order = 0 then h.prev order else ol.tail, ol.size - 1⟩) ∧
      ∀ q ≠ 0, h'.prev q = (h.unlink order).prev q ∧ h'.next q = (h.unlink order).next q := by
  by_cases ha0 : h.prev order = 0 <;> by_cases hb0 : h.next order = 0 <;>
    simp [PList.remove, NodeLinks.unlink, ho, ha0, hb0, Ne.symm ha] <;> intro q hq <;> simp [hq]

/-- `Remove` of a node in the list erases it, keeping the others in order, clears its links, and
changes the links of no other node outside the list.
Source: `level.go` `(*OrderList).Remove`
Kind: L -/
theorem Holds.remove {ol : PList} {order : UInt64} (hH : Holds h ol xs) (ho : order ∈ xs) :
    ∃ h' ol', PList.remove h ol order = some (h', ol') ∧ Holds h' ol' (xs.erase order) ∧
      ol'.size = ol.size - 1 ∧ h'.prev order = 0 ∧ h'.next order = 0 ∧
      ∀ q, q ≠ 0 → q ∉ xs → h'.prev q = h.prev q ∧ h'.next q = h.next q := by
  obtain ⟨l, r, rfl⟩ := List.append_of_mem ho
  have hnd := hH.nodup
  rw [List.nodup_append, List.nodup_cons, List.disjoint_cons_right] at hnd
  obtain ⟨hl, ⟨hor, hr⟩, hol, hlr⟩ := hnd
  have h0 : 0 ∉ l ∧ order ≠ 0 ∧ 0 ∉ r := by simpa [eq_comm] using hH.nonnil
  obtain ⟨hlin, hpa, hnb, hrin⟩ : Segment h 0 l order ∧ h.prev order = l.getLast?.getD 0 ∧
      h.next order = r.head?.getD 0 ∧ Segment h order r 0 := by
    simpa [and_assoc] using segment_append.1 hH.segment
  have ha : l.getLast?.getD 0 = 0 ∨ l.getLast?.getD 0 ∈ l := by
    simpa [getLast?_cons_getD] using getLast?_getD_mem (x := 0) (l := l) (p := 0)
  have hb : r.head?.getD 0 = 0 ∨ r.head?.getD 0 ∈ r := by cases r <;> simp
  obtain ⟨h', hrem, hag⟩ := @remove_spec h ol order h0.2.1
    (by rw [hpa]; rintro rfl; exact ha.elim h0.2.1 hol)
  rw [List.erase_append_right _ hol, List.erase_cons_head]
  have hlq : ∀ q ∈ l, q ≠ 0 ∧ q ≠ order ∧ q ≠ r.head?.getD 0 := fun q hq =>
    ⟨fun e => h0.1 (e ▸ hq), fun e => hol (e ▸ hq),
      fun e => hb.elim (fun e0 => h0.1 (e0 ▸ e ▸ hq)) fun hbr => hlr hq (e ▸ hbr)⟩
  have hrq : ∀ q ∈ r, q ≠ 0 ∧ q ≠ order ∧ q ≠ l.getLast?.getD 0 := fun q hq =>
    ⟨fun e => h0.2.2 (e ▸ hq), fun e => hor (e ▸ hq),
      fun e => ha.elim (fun e0 => h0.2.2 (e0 ▸ e ▸ hq)) fun hal => hlr hal (e ▸ hq)⟩
  refine ⟨h', _, hrem, ⟨?_, ?_, ?_, ?_, ?_, ?_⟩, rfl, ?_, ?_, ?_⟩
  · rw [segment_congr fun q hq =>
        hag q (by simp at hq; exact hq.elim (hlq q · |>.1) (hrq q · |>.1)),
      segment_append]
    constructor
    · refine (segment_congr fun q hq => ?_).2
        (segment_setNext_getLast (v := r.head?.getD 0) hl hlin)
      simp [NodeLinks.unlink, hpa, hnb, (hlq q hq).2.1, (hlq q hq).2.2]
    · have h1 : Segment (h.setNext (l.getLast?.getD 0) (r.head?.getD 0)) order r 0 :=
        (segment_congr fun q hq => by simp [(hrq q hq).2.2]).2 hrin
      refine (segment_congr fun q hq => ?_).2 (segment_setPrev_head (v := l.getLast?.getD 0) hr h1)
      simp [NodeLinks.unlink, hpa, hnb, (hrq q hq).2.1]
  · rw [hpa, hnb]
    cases l with
    | nil => simp
    | cons x l => rw [if_neg (hlq _ getLast?_getD_mem).1, hH.head]; rfl
  · rw [hpa, hnb]
    cases r with
    | nil => simp
    | cons y r =>
      rw [if_neg (show (y :: r).head?.getD 0 ≠ 0 from (hrq y (List.mem_cons_self _ _)).1),
        hH.tail]
      simp [List.getLast?_append_cons, List.getLast?_cons_cons]
  · have h1 : (1 : UInt64).toNat = 1 := rfl
    rw [UInt64.toNat_sub_of_le _ _ (UInt64.le_iff_toNat_le.2 (by simp [hH.size, h1]; omega)),
      hH.size, h1]
    simp
  · exact List.nodup_append.2 ⟨hl, hr, hlr⟩
  · simp [h0.1, h0.2.2]
  · exact (hag order h0.2.1).1.trans (by simp [NodeLinks.unlink])
  · exact (hag order h0.2.1).2.trans (by simp [NodeLinks.unlink])
  · intro q hq0 hq
    simp only [List.mem_append, List.mem_cons, not_or] at hq
    have hqa : q ≠ l.getLast?.getD 0 := fun e =>
      ha.elim (fun e0 => hq0 (e.trans e0)) (hq.1 <| e ▸ ·)
    have hqb : q ≠ r.head?.getD 0 := fun e =>
      hb.elim (fun e0 => hq0 (e.trans e0)) (hq.2.2 <| e ▸ ·)
    rw [(hag q hq0).1, (hag q hq0).2]
    simp [NodeLinks.unlink, hpa, hnb, hq.2.1, hqa, hqb]

/-! ## What a well-formed list gives -/

/-- `Size` is `0` exactly when the list has no node. Source: none. Kind: L -/
theorem Holds.size_eq_zero_iff {ol : PList} (hH : Holds h ol xs) : ol.size = 0 ↔ xs = [] := by
  rw [UInt64.eq_iff_toNat_eq, hH.size]
  exact List.length_eq_zero

/-- `Head` is `nil` exactly when `Size` is `0`. Source: none. Kind: L -/
theorem Holds.head_eq_zero_iff {ol : PList} (hH : Holds h ol xs) : ol.head = 0 ↔ ol.size = 0 := by
  rw [hH.head, hH.size_eq_zero_iff]
  cases xs with
  | nil => simp
  | cons x xs => exact iff_of_false (fun e => hH.nonnil (e ▸ List.mem_cons_self _ _)) (by simp)

/-- `Tail` is `nil` exactly when `Size` is `0`. Source: none. Kind: L -/
theorem Holds.tail_eq_zero_iff {ol : PList} (hH : Holds h ol xs) : ol.tail = 0 ↔ ol.size = 0 := by
  rw [hH.tail, hH.size_eq_zero_iff]
  cases xs with
  | nil => simp
  | cons x xs => exact iff_of_false (fun e => hH.nonnil (e ▸ getLast?_getD_mem)) (by simp)

/-- The walk along `Next` from `Head` visits the list's nodes in order and stops at `nil`.
Source: none. Kind: L -/
theorem Holds.walk {ol : PList} (hH : Holds h ol xs) : Walk h ol.head xs := by
  simpa [hH.head] using hH.segment.walk_append hH.nonnil Walk.nil

/-! ## Lists built by `PushBack` and `Remove` -/

/-- The lists built from `&OrderList{}`, whatever the nodes' links hold, by `PushBack` of a
non-`nil` node not in the list and `Remove` of a node in it; each with the abstract `OrderList`
of `Level.lean` that the same calls build on the nodes' addresses.
Source: `level.go` `(*OrderList).PushBack`, `(*OrderList).Remove`
Kind: D -/
inductive ListReachable : NodeLinks → PList → OrderList → Prop
  | new (h : NodeLinks) : ListReachable h PList.new ⟨[], 0⟩
  | pushBack {h h' : NodeLinks} {ol ol' : PList} {A : OrderList} (order : UInt64) :
      ListReachable h ol A → order ≠ 0 → order.toNat ∉ A.nodes →
      PList.pushBack h ol order = some (h', ol') → ListReachable h' ol' (A.pushBack order.toNat)
  | remove {h h' : NodeLinks} {ol ol' : PList} {A : OrderList} (order : UInt64) :
      ListReachable h ol A → order.toNat ∈ A.nodes →
      PList.remove h ol order = some (h', ol') → ListReachable h' ol' (A.remove order.toNat)

/-- Every list built so holds its node sequence, and the abstract list is that sequence.
Source: none. Kind: L -/
theorem ListReachable.holds {ol : PList} {A : OrderList} (hr : ListReachable h ol A) :
    ∃ xs, Holds h ol xs ∧ A = ⟨xs.map UInt64.toNat, ol.size⟩ := by
  induction hr with
  | new h => exact ⟨[], ⟨trivial, rfl, rfl, rfl, List.nodup_nil, List.not_mem_nil _⟩, rfl⟩
  | pushBack _ _ ho hnew hpb ih =>
    obtain ⟨xs, hH, rfl⟩ := ih
    obtain ⟨h'', ol'', hpb', hH', hsize, -⟩ :=
      hH.pushBack ho fun hm => hnew (List.mem_map_of_mem _ hm)
    rw [hpb, Option.some.injEq, Prod.mk.injEq] at hpb'
    obtain ⟨rfl, rfl⟩ := hpb'
    exact ⟨_, hH', by simp [OrderList.pushBack, hsize]⟩
  | remove _ _ hmem hrm ih =>
    obtain ⟨xs, hH, rfl⟩ := ih
    obtain ⟨x, hx, hxo⟩ := List.mem_map.1 hmem
    obtain rfl := UInt64.toNat.inj hxo
    obtain ⟨h'', ol'', hrm', hH', hsize, -⟩ := hH.remove hx
    rw [hrm, Option.some.injEq, Prod.mk.injEq] at hrm'
    obtain ⟨rfl, rfl⟩ := hrm'
    exact ⟨_, hH', by
      simp [OrderList.remove, hsize, List.map_erase fun _ _ => UInt64.toNat.inj]⟩

/-- A well-formed order list spelling the abstract list `A`: a sequence `xs` of nodes that `ol`
holds (`Head` and `Tail` its first and last nodes, `Size` their number), `Head` and `Tail` `nil`
exactly when `Size` is `0`, every `Next` and `Prev` between nodes with its back-link, the walk
from `Head` along `Next` visiting `xs` and stopping at `nil`, and `A` the sequence `xs`.
Source: none: the order list's specification
Kind: D -/
def WellFormed (h : NodeLinks) (ol : PList) (A : OrderList) : Prop :=
  ∃ xs, Holds h ol xs ∧ (ol.head = 0 ↔ ol.size = 0) ∧ (ol.tail = 0 ↔ ol.size = 0) ∧
    (∀ x ∈ xs,
      (h.next x ≠ 0 → h.prev (h.next x) = x) ∧ (h.prev x ≠ 0 → h.next (h.prev x) = x)) ∧
    Walk h ol.head xs ∧ A = ⟨xs.map UInt64.toNat, ol.size⟩

/-- Every list built by `PushBack` of nodes not in it and `Remove` of nodes in it is well-formed
and spells the abstract FIFO sequence.
Source: `level.go` `(*OrderList).PushBack`, `(*OrderList).Remove`
Kind: P -/
theorem ListReachable.wellFormed {ol : PList} {A : OrderList} (hr : ListReachable h ol A) :
    WellFormed h ol A :=
  let ⟨xs, hH, hA⟩ := hr.holds
  ⟨xs, hH, hH.head_eq_zero_iff, hH.tail_eq_zero_iff,
    fun _ hx => ⟨hH.segment.prev_next hx, hH.segment.next_prev hx⟩, hH.walk, hA⟩

/-- `TestOrderList` up to its first `Remove`: nodes `1`, `2` and `3` pushed on a fresh list whose
nodes' links are all `nil`, then node `2` removed.
Source: the `matching` tests' `TestOrderList`
Kind: D -/
def testOrderList : Option (NodeLinks × PList) := do
  let (h, ol) ← PList.pushBack ⟨fun _ => 0, fun _ => 0⟩ PList.new 1
  let (h, ol) ← PList.pushBack h ol 2
  let (h, ol) ← PList.pushBack h ol 3
  PList.remove h ol 2

example :
    (testOrderList.map fun s => (s.2, s.1.next 1, s.1.prev 3)) = some (⟨1, 3, 2⟩, 3, 1) := by
  decide

/-- The run of `TestOrderList` is well-formed and spells `[1, 3]`. -/
theorem testOrderList_wellFormed :
    ∃ h ol, testOrderList = some (h, ol) ∧ WellFormed h ol ⟨[1, 3], 2⟩ :=
  ⟨_, _, rfl, ListReachable.wellFormed (.remove 2 (.pushBack 3 (.pushBack 2 (.pushBack 1 (.new _)
    (by decide) (by decide) rfl) (by decide) (by decide) rfl) (by decide) (by decide) rfl)
    (by decide) rfl)⟩

end GoTrader.Matching
