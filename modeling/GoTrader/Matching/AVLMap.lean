import GoTrader.Matching.OrderBookSpec
import GoTrader.Matching.AVLBalance

/-!
# The AVL tree as an ordered map

`avltree.go` on its own, as its users see it: a tree and the heap of level nodes it points
into, changed by `Insert` of a fresh level node whose price is not in the tree and by `Remove`
of a node of the tree.

* `TreeOp`, `AVLTree.treeStep`, `TreeReachable d` — those calls, and the trees they reach from
  `NewAVLTree(d)` and any heap;
* `TreeInv` — what every such tree keeps: its direction, AVL balance (`Tree.AVL`), its in-order
  sequence sorted by `compare` on the prices, fresh addresses above it, and `size` equal to the
  number of its nodes;
* `priceMap` — the map the tree stands for: each price in the tree to the level data (`Level`
  and `OrderList`) of its node; `TreeInv.insert` and `TreeInv.remove` — `Insert` adds its
  price, `Remove` deletes exactly its node's price, every other price keeps its data, and the
  orders of a payload that moved to another node object point to that node;
* `Tree.forEach` — `ForEach` with a callback that keeps state; it is called on a prefix of the
  in-order sequence, all of it when the callback never stops (`Tree.forEach_recording`);
* `OrderedMap`, `TreeReachable.ordered_map` — what `Size`, `Find`, `First`, `ForEach`, `Insert`
  and `Remove` do on every reachable tree, assembled from the invariant (`TreeInv.orderedMap`);
  `bidTree` is a run whose `Remove` moves a payload between node objects.
-/

namespace GoTrader.Matching

/-! ## Calls and runs -/

/-- The calls of `avltree.go` that change a tree: `Insert` of a new level node, `Remove` of a
level node.
Source: `avltree.go` `(*AVLTree).Insert`, `Remove`
Kind: D -/
inductive TreeOp where
  | insert (n : LevelNode)
  | remove (level : Nat)

/-- One call on a tree and the heap of level nodes: `Insert(NewLevelNode(...))` allocates the
node at the next address and inserts it.
Source: `avltree.go` `(*AVLTree).Insert`, `Remove`; `level.go` `NewLevelNode`
Kind: D -/
def AVLTree.treeStep (s : AVLTree × Heap) : TreeOp → Option (AVLTree × Heap)
  | .insert n => (s.1.insert (s.2.allocLevel n).price s.2.next).map (·, s.2.allocLevel n)
  | .remove level => s.1.remove s.2 (some level)

/-- The calls the tree's users make: `Insert` of a price the tree does not hold, `Remove` of a
node of the tree.
Source: `orderbook.go` (`AddLevel` after `Find` fails; `DeleteLevel` of an order's level)
Kind: D -/
def TreeOp.Admissible (s : AVLTree × Heap) : TreeOp → Prop
  | .insert n => ∀ x ∈ s.1.root.ids, s.2.price x ≠ n.level.price
  | .remove level => level ∈ s.1.root.ids

instance (s : AVLTree × Heap) : (op : TreeOp) → Decidable (op.Admissible s)
  | .insert n => inferInstanceAs (Decidable (∀ x ∈ s.1.root.ids, s.2.price x ≠ n.level.price))
  | .remove level => inferInstanceAs (Decidable (level ∈ s.1.root.ids))

/-- The trees and heaps reached from `NewAVLTree(d)` and any heap by admissible calls.
Source: none: the run semantics
Kind: D -/
inductive TreeReachable (d : Bool) : AVLTree × Heap → Prop where
  | init (h : Heap) : TreeReachable d (AVLTree.newAVLTree d, h)
  | step {s s' : AVLTree × Heap} {op : TreeOp} :
      TreeReachable d s → op.Admissible s → AVLTree.treeStep s op = some s' → TreeReachable d s'

/-! ## The sorted sequence -/

namespace Tree

variable {price : Nat → UInt64} {d : Bool} {l : List Nat}

theorem Sorted.nodup (hs : Sorted price d l) : l.Nodup :=
  hs.imp fun {a b} (h : AVLTree.precedes d (price a) (price b)) (e : a = b) =>
    AVLTree.precedes_irrefl (price b) (e ▸ h)

theorem Sorted.price_nodup (hs : Sorted price d l) : (l.map price).Nodup :=
  List.pairwise_map.2 (hs.imp fun {a b} (h : AVLTree.precedes d (price a) (price b))
    (e : price a = price b) => AVLTree.precedes_irrefl (price b) (e ▸ h))

/-- In a sorted sequence a price is the price of one node only. Source: none. Kind: L -/
theorem Sorted.price_inj (hs : Sorted price d l) {x y : Nat} (hx : x ∈ l) (hy : y ∈ l)
    (e : price x = price y) : x = y :=
  List.inj_on_of_nodup_map hs.price_nodup hx hy e

/-- Looking a price up along a sorted sequence finds the node of that price. Source: none.
Kind: L -/
theorem Sorted.find?_eq_some_iff (hs : Sorted price d l) {p : UInt64} {x : Nat} :
    l.find? (fun y => price y == p) = some x ↔ x ∈ l ∧ price x = p := by
  refine ⟨fun h => ⟨List.mem_of_find?_eq_some h, by simpa using List.find?_some h⟩, ?_⟩
  rintro ⟨hx, rfl⟩
  rcases hf : l.find? (fun y => price y == price x) with _ | y
  · exact absurd hx (by simpa using List.find?_eq_none.1 hf x)
  · have hy := List.mem_of_find?_eq_some hf
    rw [hs.price_inj hy hx (by simpa using List.find?_some hf)]

end Tree

/-! ## The invariant -/

/-- What every reachable tree keeps.
Source: `avltree.go` (the tree as `Insert` and `Remove` maintain it)
Kind: D -/
structure TreeInv (d : Bool) (s : AVLTree × Heap) : Prop where
  descending : s.1.descending = d
  avl : s.1.root.AVL
  sorted : Tree.Sorted s.2.price d s.1.root.ids
  lt_next : ∀ x ∈ s.1.root.ids, x < s.2.next
  size : s.1.size = s.1.root.ids.length

/-- The map a tree stands for: each price in the tree to the level data of its node.
Source: none: the abstraction of `avltree.go` (`spec.md`: a map from price to level)
Kind: D -/
def priceMap (s : AVLTree × Heap) (p : UInt64) : Option LevelNode :=
  (s.1.root.ids.find? fun x => s.2.price x == p).map s.2.levelNodes

theorem priceMap_eq_some_iff {d : Bool} {s : AVLTree × Heap}
    (hs : Tree.Sorted s.2.price d s.1.root.ids) {p : UInt64} {n : LevelNode} :
    priceMap s p = some n ↔ ∃ x ∈ s.1.root.ids, s.2.price x = p ∧ s.2.levelNodes x = n := by
  simp only [priceMap, Option.map_eq_some', hs.find?_eq_some_iff, and_assoc]

/-- Two sorted trees whose nodes carry the same prices and data, but for node `L` of the first,
stand for maps that differ by the deletion of `L`'s price.
Source: none. Kind: L -/
theorem priceMap_erase {d : Bool} {s s' : AVLTree × Heap} {L : Nat}
    (hs : Tree.Sorted s.2.price d s.1.root.ids) (hs' : Tree.Sorted s'.2.price d s'.1.root.ids)
    (hL : L ∈ s.1.root.ids)
    (he : ∀ p n, (∃ x ∈ s'.1.root.ids, s'.2.price x = p ∧ s'.2.levelNodes x = n) ↔
      ∃ y ∈ s.1.root.ids, y ≠ L ∧ s.2.price y = p ∧ s.2.levelNodes y = n) :
    priceMap s' = Function.update (priceMap s) (s.2.price L) none := by
  funext p
  apply Option.ext
  intro n
  rw [Option.mem_def, Option.mem_def, priceMap_eq_some_iff hs', he, Function.update_apply]
  split_ifs with hp
  · subst hp
    simp only [reduceCtorEq, iff_false, not_exists, not_and]
    exact fun y hy hyL hyp _ => hyL (hs.price_inj hy hL hyp)
  · rw [priceMap_eq_some_iff hs]
    exact ⟨fun ⟨y, hy, _, hyp⟩ => ⟨y, hy, hyp⟩,
      fun ⟨y, hy, hyp⟩ => ⟨y, hy, fun e => hp (e ▸ hyp.1).symm, hyp⟩⟩

namespace AVLTree

theorem insert_size {t t' : AVLTree} {price : Nat → UInt64} {level : Nat}
    (h : t.insert price level = some t') : t'.size = t.size + 1 := by
  unfold insert at h
  split at h
  · cases h; rfl
  · obtain ⟨_, -, h⟩ := Option.bind_eq_some.1 h
    cases h; rfl

theorem remove_size {t t' : AVLTree} {h h' : Heap} {L : Nat}
    (hr : t.remove h (some L) = some (t', h')) : t'.size = t.size - 1 := by
  obtain ⟨_, -, hr⟩ := Option.bind_eq_some.1 hr
  cases hr; rfl

theorem remove_next {t t' : AVLTree} {h h' : Heap} {L : Nat}
    (hr : t.remove h (some L) = some (t', h')) : h'.next = h.next := by
  obtain ⟨⟨_, _, s⟩, -, hr⟩ := Option.bind_eq_some.1 hr
  cases hr
  cases s <;> rfl

end AVLTree

namespace TreeInv

variable {d : Bool} {s : AVLTree × Heap}

theorem init (h : Heap) : TreeInv d (AVLTree.newAVLTree d, h) where
  descending := rfl
  avl := trivial
  sorted := List.Pairwise.nil
  lt_next := fun _ hx => absurd hx (List.not_mem_nil _)
  size := rfl

/-- `Insert` of a price the tree does not hold succeeds, keeps the invariant, and adds the price
with the new node's data to the map.
Source: `avltree.go` `(*AVLTree).Insert`
Kind: L -/
theorem insert (hI : TreeInv d s) {n : LevelNode} (hp : (TreeOp.insert n).Admissible s) :
    ∃ s', AVLTree.treeStep s (.insert n) = some s' ∧ TreeInv d s' ∧
      priceMap s' = Function.update (priceMap s) n.level.price (some n) := by
  obtain ⟨t, h⟩ := s
  set h' := h.allocLevel n
  have hpr : ∀ x ∈ t.root.ids, h'.price x = h.price x := fun x hx => by
    rw [Heap.price_allocLevel, if_neg (Nat.ne_of_lt (hI.lt_next x hx))]
  have hnew : h'.price h.next = n.level.price := by rw [Heap.price_allocLevel, if_pos rfl]
  obtain ⟨t', ht', havl, hdesc⟩ := AVLTree.insert_avl h'.price h.next hI.avl
  obtain ⟨-, hids⟩ := AVLTree.insert_spec ht'
  have hs := (hI.sorted.congr hpr)
  rw [hI.descending] at hids
  obtain ⟨l₁, l₂, e, e', h₁, h₂⟩ := Tree.insertIds_split hs
    (fun x hx => by rw [hpr x hx, hnew]; exact hp x hx)
  rw [e'] at hids
  have hs' : Tree.Sorted h'.price d t'.root.ids := by
    rw [hids]; exact Tree.sorted_insert (e ▸ hs) h₁ h₂
  refine ⟨(t', h'), by simp [AVLTree.treeStep, ht', h'], ⟨hdesc.trans hI.descending, havl, hs',
    fun x hx => ?_, ?_⟩, ?_⟩
  · rw [hids, List.mem_append, List.mem_cons] at hx
    have := fun y (hy : y ∈ t.root.ids) => hI.lt_next y hy
    rw [e] at this
    simp only [h', Heap.allocLevel_next]
    rcases hx with hx | rfl | hx
    · exact Nat.lt_succ_of_lt (this x (List.mem_append_left _ hx))
    · exact Nat.lt_succ_self _
    · exact Nat.lt_succ_of_lt (this x (List.mem_append_right _ hx))
  · rw [AVLTree.insert_size ht', hI.size, hids, e]
    simp only [List.length_append, List.length_cons]
    push_cast
    omega
  · funext p
    apply Option.ext
    intro m
    rw [Option.mem_def, Option.mem_def, priceMap_eq_some_iff (s := (t', h')) hs',
      Function.update_apply]
    simp only [hids, List.mem_append, List.mem_cons]
    split_ifs with hpn
    · subst hpn
      constructor
      · rintro ⟨x, hx, hxp, rfl⟩
        have : x = h.next := by
          by_contra hne
          refine hp x ?_ ((hpr x ?_).symm.trans (hxp.trans hnew.symm) |>.trans hnew)
          all_goals rcases hx with hx | hx | hx
          all_goals first | exact absurd hx hne | (rw [e]; simp [hx])
        subst this
        simp [h', Heap.allocLevel_levelNodes]
      · rintro ⟨⟩
        exact ⟨h.next, .inr (.inl rfl), hnew, by simp [h', Heap.allocLevel_levelNodes]⟩
    · rw [priceMap_eq_some_iff (s := (t, h)) hI.sorted, e]
      simp only [List.mem_append]
      constructor
      · rintro ⟨x, hx, hxp, rfl⟩
        rcases hx with hx | rfl | hx
        · exact ⟨x, .inl hx, (hpr x (by rw [e]; simp [hx])).symm.trans hxp,
            (Heap.allocLevel_levelNodes_of_lt _ _ (hI.lt_next x (by rw [e]; simp [hx]))).symm⟩
        · exact absurd (hnew.symm.trans hxp) (Ne.symm hpn)
        · exact ⟨x, .inr hx, (hpr x (by rw [e]; simp [hx])).symm.trans hxp,
            (Heap.allocLevel_levelNodes_of_lt _ _ (hI.lt_next x (by rw [e]; simp [hx]))).symm⟩
      · rintro ⟨x, hx, hxp, rfl⟩
        have hxt : x ∈ t.root.ids := by rw [e]; exact List.mem_append.2 hx
        refine ⟨x, ?_, (hpr x hxt).trans hxp,
          Heap.allocLevel_levelNodes_of_lt _ _ (hI.lt_next x hxt)⟩
        rcases hx with hx | hx
        · exact .inl hx
        · exact .inr (.inr hx)

/-- `Remove` of a node of the tree succeeds, keeps the invariant and deletes exactly that node's
price from the map. The only node object whose data changes is the removed node, when its
successor's data moves into it, and the orders of that data then point to it.
Source: `avltree.go` `(*AVLTree).Remove`
Kind: L -/
theorem remove (hI : TreeInv d s) {L : Nat} (hL : L ∈ s.1.root.ids) :
    ∃ s', AVLTree.treeStep s (.remove L) = some s' ∧ TreeInv d s' ∧
      priceMap s' = Function.update (priceMap s) (s.2.price L) none ∧
      ∀ x ∈ s'.1.root.ids, s'.2.levelNodes x ≠ s.2.levelNodes x →
        x = L ∧ ∀ b ∈ s'.2.nodes x, (s'.2.orderNodes b).level = some x := by
  obtain ⟨t, h⟩ := s
  obtain ⟨t', h', hr, havl, hdesc⟩ := AVLTree.remove_avl h hI.avl hL
  obtain ⟨-, l₁, l₂, e, hcase⟩ := AVLTree.remove_spec hr
  have hnd := hI.sorted.nodup
  rw [e] at hnd
  have hsize : t'.size = t.size - 1 := AVLTree.remove_size hr
  have hnext : h'.next = h.next := AVLTree.remove_next hr
  refine ⟨(t', h'), hr, ?_⟩
  rcases hcase with ⟨rfl, e'⟩ | ⟨S, l₃, rfl, rfl, e'⟩
  · have hsub : List.Sublist t'.root.ids t.root.ids := by
      rw [e', e]; exact (List.sublist_cons_self L l₂).append_left l₁
    have hLn : L ∉ l₁ ++ l₂ := (List.nodup_cons.1 (List.nodup_middle.1 hnd)).1
    have hs' := hI.sorted.sublist hsub
    refine ⟨⟨hdesc.trans hI.descending, havl, hs', fun x hx => hI.lt_next x (hsub.subset hx), ?_⟩,
      priceMap_erase hI.sorted hs' hL fun p n => ?_, fun x _ hx => absurd rfl hx⟩
    · rw [hsize, hI.size, e', e]
      simp only [List.length_append, List.length_cons]
      push_cast
      omega
    · dsimp only
      rw [e', e]
      simp only [List.mem_append, List.mem_cons]
      constructor
      · rintro ⟨x, hx, hxp⟩
        exact ⟨x, hx.imp id .inr, fun hxL => hLn (hxL ▸ List.mem_append.2 hx), hxp⟩
      · rintro ⟨y, hy | rfl | hy, hyL, hyp⟩
        · exact ⟨y, .inl hy, hyp⟩
        · exact absurd rfl hyL
        · exact ⟨y, .inr hy, hyp⟩
  · have hnd' := List.nodup_cons.1 (List.nodup_middle.1 hnd)
    have hSL : S ≠ L := fun e => hnd'.1 (by simp [e])
    have hL₁₃ : ∀ x ∈ l₁ ++ l₃, x ≠ L := fun x hx e => hnd'.1 (by
      subst e; simp only [List.mem_append, List.mem_cons] at hx ⊢; tauto)
    have hs' : Tree.Sorted (h.moveLevel S L).price d t'.root.ids := by
      rw [e']
      refine Tree.sorted_replace (e ▸ hI.sorted) (fun x hx => ?_)
        (by rw [Heap.price_moveLevel, if_pos rfl])
      rw [Heap.price_moveLevel, if_neg (hL₁₃ x hx)]
    refine ⟨⟨hdesc.trans hI.descending, havl, hs', fun x hx => ?_, ?_⟩,
      priceMap_erase hI.sorted hs' hL fun p n => ?_, fun x _ hne => ?_⟩
    · rw [Heap.moveLevel_next]
      refine hI.lt_next x ?_
      rw [e', List.mem_append, List.mem_cons] at hx
      rw [e, List.mem_append, List.mem_cons, List.mem_cons]
      tauto
    · rw [hsize, hI.size, e', e]
      simp only [List.length_append, List.length_cons]
      push_cast
      omega
    · dsimp only
      rw [e', e]
      simp only [Heap.price_moveLevel, Heap.moveLevel_levelNodes, List.mem_append, List.mem_cons]
      constructor
      · rintro ⟨x, hx, hxp⟩
        by_cases hxL : x = L
        · subst hxL
          exact ⟨S, .inr (.inr (.inl rfl)), hSL, by simpa only [if_pos] using hxp⟩
        · refine ⟨x, ?_, hxL, by simpa only [if_neg hxL] using hxp⟩
          rcases hx with hx | hx | hx
          · exact .inl hx
          · exact absurd hx hxL
          · exact .inr (.inr (.inr hx))
      · rintro ⟨y, hy, hyL, hyp⟩
        by_cases hyS : y = S
        · subst hyS
          exact ⟨L, .inr (.inl rfl), by simpa only [if_pos] using hyp⟩
        · refine ⟨y, ?_, by simpa only [if_neg hyL] using hyp⟩
          rcases hy with hy | hy | hy | hy
          · exact .inl hy
          · exact absurd hy hyL
          · exact absurd hy hyS
          · exact .inr (.inr hy)
    · have hxL : x = L := by
        by_contra hxL
        exact hne (by rw [Heap.moveLevel_levelNodes, if_neg hxL])
      subst hxL
      refine ⟨rfl, fun b hb => ?_⟩
      rw [Heap.nodes_moveLevel, if_pos rfl] at hb
      rw [Heap.moveLevel_orderNodes, if_pos hb]

end TreeInv

/-! ## ForEach -/

namespace Tree

/-- In-order walk calling `fn` on each node until it returns `false`. Go's callback reads and
writes the variables its closure captures; they are the state `σ` that `fn` threads.
Source: `avltree.go` `(*AVLTree).forEach`
Kind: D
Fidelity: exact, with the closure's captured variables as `σ` -/
def forEach {σ : Type} (fn : Nat → σ → Bool × σ) : Tree → σ → Bool × σ
  | nil, st => (true, st)
  | node l x _ r, st =>
    match forEach fn l st with
    | (false, st) => (false, st)
    | (true, st) =>
      match fn x st with
      | (false, st) => (false, st)
      | (true, st) => forEach fn r st

/-- The callback `fn` that also appends the node it is called on to a log.
Source: none: instrumentation of the callback
Kind: D -/
def recording {σ : Type} (fn : Nat → σ → Bool × σ) (x : Nat) (st : σ × List Nat) :
    Bool × σ × List Nat :=
  ((fn x st.1).1, (fn x st.1).2, st.2 ++ [x])

/-- `forEach` calls its callback on a prefix of the in-order sequence, in that order, and on all
of it when the walk returns `true`; logging the calls changes nothing else.
Source: `avltree.go` `(*AVLTree).forEach`
Kind: L -/
theorem forEach_recording {σ : Type} (fn : Nat → σ → Bool × σ) :
    ∀ (t : Tree) (st : σ) (vs : List Nat), ∃ pre, List.IsPrefix pre t.ids ∧
      t.forEach (recording fn) (st, vs) =
        ((t.forEach fn st).1, (t.forEach fn st).2, vs ++ pre) ∧
      ((t.forEach fn st).1 = true → pre = t.ids)
  | nil, st, vs => ⟨[], List.nil_prefix, by simp [forEach], fun _ => rfl⟩
  | node l x b r, st, vs => by
    obtain ⟨pre₁, hp₁, e₁, h₁⟩ := forEach_recording fn l st vs
    rcases hl : l.forEach fn st with ⟨_ | _, st₁⟩
    · rw [hl] at e₁
      refine ⟨pre₁, hp₁.trans (List.prefix_append _ _), ?_, fun h => ?_⟩
      · simp only [forEach, e₁, hl]
      · simp only [forEach, hl, Bool.false_eq_true] at h
    obtain rfl : pre₁ = l.ids := h₁ (by rw [hl])
    rw [hl] at e₁
    rcases hx : fn x st₁ with ⟨_ | _, st₂⟩
    · refine ⟨l.ids ++ [x], ⟨r.ids, by simp⟩, ?_, fun h => ?_⟩
      · simp only [forEach, e₁, hl, recording, hx, List.append_assoc]
      · simp only [forEach, hl, hx, Bool.false_eq_true] at h
    obtain ⟨pre₃, ⟨u, hu⟩, e₃, h₃⟩ := forEach_recording fn r st₂ (vs ++ l.ids ++ [x])
    refine ⟨l.ids ++ x :: pre₃, ⟨u, by simp [← hu]⟩, ?_, fun h => ?_⟩
    · simp only [forEach, e₁, hl, recording, hx, e₃]
      simp
    · simp only [forEach, hl, hx] at h
      rw [ids_node, h₃ h]

/-- A callback that never asks to stop makes the walk run to the end.
Source: `avltree.go` `(*AVLTree).forEach`
Kind: L -/
theorem forEach_true {σ : Type} {fn : Nat → σ → Bool × σ} (hfn : ∀ x st, (fn x st).1 = true) :
    ∀ (t : Tree) (st : σ), (t.forEach fn st).1 = true
  | nil, _ => rfl
  | node l x _ r, st => by
    have hl := forEach_true hfn l st
    have hx := hfn x (l.forEach fn st).2
    rcases e : l.forEach fn st with ⟨_ | _, st₁⟩
    · rw [e] at hl; cases hl
    rw [e] at hx
    rcases e' : fn x st₁ with ⟨_ | _, st₂⟩
    · rw [e'] at hx; cases hx
    simp only [forEach, e, e', forEach_true hfn r st₂]

end Tree

/-- Source: `avltree.go` `(*AVLTree).ForEach`. Kind: D. Fidelity: exact -/
def AVLTree.forEach {σ : Type} (t : AVLTree) (fn : Nat → σ → Bool × σ) (st : σ) : σ :=
  (t.root.forEach fn st).2

/-! ## Reachable trees -/

/-- The keys of the map: the prices of the tree's nodes, in order. Source: none. Kind: D -/
def keys (s : AVLTree × Heap) : List UInt64 := s.1.root.ids.map s.2.price

/-- The tree as an ordered map from prices to level data.
Source: `avltree.go` (`Size`, `Find`, `First`, `ForEach`, `Insert`, `Remove`)
Kind: D -/
structure OrderedMap (d : Bool) (s : AVLTree × Heap) : Prop where
  /-- `Size()` is the number of keys, which are distinct and are the map's domain. -/
  size : s.1.size = (keys s).length
  keys_nodup : (keys s).Nodup
  mem_keys : ∀ p, p ∈ keys s ↔ (priceMap s p).isSome
  /-- `Find(p)` returns a node exactly for a key, and that node carries `p`'s data. -/
  find_isSome : ∀ p, (s.1.find s.2.price p).isSome ↔ p ∈ keys s
  find_data : ∀ p x, s.1.find s.2.price p = some x → priceMap s p = some (s.2.levelNodes x)
  /-- `First()` returns the key least under `compare`, and nothing only on an empty tree. -/
  first_least : ∀ x, s.1.first = some x → priceMap s (s.2.price x) = some (s.2.levelNodes x) ∧
    ∀ p ∈ keys s, p ≠ s.2.price x → AVLTree.precedes d (s.2.price x) p
  first_none : s.1.first = none ↔ keys s = []
  /-- `ForEach` calls its callback on the nodes in increasing key order, stopping only when the
  callback asks to. -/
  keys_sorted : (keys s).Pairwise (AVLTree.precedes d)
  forEach : ∀ (σ : Type) (fn : Nat → σ → Bool × σ) (st : σ), ∃ pre,
    List.IsPrefix pre s.1.root.ids ∧
    s.1.forEach (Tree.recording fn) (st, []) = (s.1.forEach fn st, pre) ∧
    ((∀ x st, (fn x st).1 = true) → pre = s.1.root.ids)
  /-- `Insert` of a new price succeeds and adds it with the new node's data. -/
  insert : ∀ n : LevelNode, n.level.price ∉ keys s → ∃ s',
    AVLTree.treeStep s (.insert n) = some s' ∧
    priceMap s' = Function.update (priceMap s) n.level.price (some n)
  /-- `Remove` of a node succeeds and deletes exactly its price; a payload that moved to
  another node object has its orders pointing to that node. -/
  remove : ∀ L ∈ s.1.root.ids, ∃ s', AVLTree.treeStep s (.remove L) = some s' ∧
    priceMap s' = Function.update (priceMap s) (s.2.price L) none ∧
    ∀ x ∈ s'.1.root.ids, s'.2.levelNodes x ≠ s.2.levelNodes x →
      x = L ∧ ∀ b ∈ s'.2.nodes x, (s'.2.orderNodes b).level = some x

namespace TreeInv

variable {d : Bool} {s : AVLTree × Heap}

theorem mem_keys_iff (hI : TreeInv d s) {p : UInt64} : p ∈ keys s ↔ (priceMap s p).isSome := by
  simp only [keys, List.mem_map, Option.isSome_iff_exists, priceMap_eq_some_iff hI.sorted]
  exact ⟨fun ⟨x, hx, e⟩ => ⟨_, x, hx, e, rfl⟩, fun ⟨_, x, hx, e, _⟩ => ⟨x, hx, e⟩⟩

theorem find_eq_some_iff (hI : TreeInv d s) {p : UInt64} {x : Nat} :
    s.1.find s.2.price p = some x ↔ x ∈ s.1.root.ids ∧ s.2.price x = p := by
  rw [AVLTree.find, hI.descending]
  exact Tree.find_eq_some_iff hI.sorted

/-- The node `First()` returns precedes every other key. Source: `avltree.go`
`(*AVLTree).First`. Kind: L -/
theorem first_precedes (hI : TreeInv d s) {x : Nat} (hx : s.1.first = some x) :
    x ∈ s.1.root.ids ∧ ∀ p ∈ keys s, p ≠ s.2.price x → AVLTree.precedes d (s.2.price x) p := by
  have hs := hI.sorted
  rw [AVLTree.first, Tree.first_eq_head] at hx
  obtain ⟨rest, e⟩ := List.head?_eq_some_iff.1 hx
  rw [keys, e]
  rw [e] at hs
  refine ⟨.head _, ?_⟩
  simp only [List.map_cons, List.mem_cons, List.mem_map]
  rintro p (rfl | ⟨y, hy, rfl⟩) hne
  · exact absurd rfl hne
  · exact List.rel_of_pairwise_cons hs hy

/-- Every tree that keeps the invariant is the ordered map `OrderedMap` describes.
Source: `avltree.go`
Kind: L -/
theorem orderedMap (hI : TreeInv d s) : OrderedMap d s where
  size := by rw [hI.size, keys, List.length_map]
  keys_nodup := hI.sorted.price_nodup
  mem_keys _ := hI.mem_keys_iff
  find_isSome p := by
    simp only [Option.isSome_iff_exists, hI.find_eq_some_iff, keys, List.mem_map]
  find_data p x hx := by
    obtain ⟨hmem, rfl⟩ := hI.find_eq_some_iff.1 hx
    exact (priceMap_eq_some_iff hI.sorted).2 ⟨x, hmem, rfl, rfl⟩
  first_least x hx := by
    obtain ⟨hmem, hleast⟩ := hI.first_precedes hx
    exact ⟨(priceMap_eq_some_iff hI.sorted).2 ⟨x, hmem, rfl, rfl⟩, hleast⟩
  first_none := by
    rw [AVLTree.first, Tree.first_eq_head, List.head?_eq_none_iff, keys, List.map_eq_nil_iff]
  keys_sorted := List.pairwise_map.2 hI.sorted
  forEach σ fn st := by
    obtain ⟨pre, hp, e, hall⟩ := Tree.forEach_recording fn s.1.root st []
    refine ⟨pre, hp, by simp only [AVLTree.forEach, e, List.nil_append], fun h => ?_⟩
    exact hall (Tree.forEach_true h _ _)
  insert n hn := by
    have hp : (TreeOp.insert n).Admissible s := fun x hx e =>
      hn (List.mem_map.2 ⟨x, hx, e⟩)
    obtain ⟨s', hs', -, hm⟩ := hI.insert hp
    exact ⟨s', hs', hm⟩
  remove L hL := by
    obtain ⟨s', hs', -, hm⟩ := hI.remove hL
    exact ⟨s', hs', hm⟩

end TreeInv

/-- Every reachable tree keeps the invariant.
Source: `avltree.go` (`NewAVLTree`, `Insert`, `Remove`)
Kind: L -/
theorem TreeReachable.inv {d : Bool} {s : AVLTree × Heap} (hs : TreeReachable d s) :
    TreeInv d s := by
  induction hs with
  | init h => exact TreeInv.init h
  | @step s s' op _ hop hst ih =>
    cases op with
    | insert n =>
      obtain ⟨_, e, hI', -⟩ := ih.insert hop
      rw [hst, Option.some.injEq] at e
      exact e ▸ hI'
    | remove L =>
      obtain ⟨_, e, hI', -⟩ := ih.remove hop
      rw [hst, Option.some.injEq] at e
      exact e ▸ hI'

/-- Every tree reached from `NewAVLTree(d)` by `Insert` of new prices and `Remove` of its nodes
is an ordered map from prices to level data (`OrderedMap`).
Source: `avltree.go`
Kind: P -/
theorem TreeReachable.ordered_map {d : Bool} {s : AVLTree × Heap} (hs : TreeReachable d s) :
    OrderedMap d s :=
  hs.inv.orderedMap

/-- An empty heap of level nodes. Source: none: a run. Kind: D -/
def levelHeap : Heap := ⟨fun _ => default, fun _ => default, 0, 0⟩

/-- Source: `level.go` `NewLevelNode(LevelTypeBid, p)`. Kind: D -/
def bidLevel (p : UInt64) : LevelNode := newLevelNode levelTypeBid p

/-- The heap after bid level nodes at 10, 20 and 30 are allocated at addresses 0, 1 and 2.
Source: none: a run. Kind: D -/
def bidHeap : Heap :=
  ((levelHeap.allocLevel (bidLevel 10)).allocLevel (bidLevel 20)).allocLevel (bidLevel 30)

/-- `NewAVLTree(true)` after `Insert` at 10, 20 and 30 — the third rotates 20's node to the root,
30's on its left and 10's on its right — and `Remove` of the root: 10's node is its successor,
and its data moves into the root's node object.
Source: none: a run. Kind: D -/
def bidTree : AVLTree × Heap :=
  (⟨.node (.node .nil 2 0 .nil) 1 (-1) .nil, 2, true⟩, bidHeap.moveLevel 0 1)

theorem reachable_bidTree : TreeReachable true bidTree :=
  @TreeReachable.step _ _ _ (.remove 1)
    (@TreeReachable.step _ _ _ (.insert (bidLevel 30))
      (@TreeReachable.step _ _ _ (.insert (bidLevel 20))
        (@TreeReachable.step _ _ _ (.insert (bidLevel 10)) (.init levelHeap) (by decide) rfl)
        (by decide) rfl)
      (by decide) rfl)
    (by decide) rfl

example : keys bidTree = [30, 10] := by decide

theorem bid_tree_ordered_map : TreeReachable true bidTree ∧ OrderedMap true bidTree :=
  ⟨reachable_bidTree, TreeReachable.ordered_map reachable_bidTree⟩

end GoTrader.Matching
