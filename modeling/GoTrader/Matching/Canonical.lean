import GoTrader.Matching.View

/-!
# The books are determined by the registry, up to the order within a level

Between two calls, which orders rest where follows from the registered order values alone: an
order rests in the tree its type and side select, of the book of its `SymbolID`, in the level
of its routing price, and every level has at least one order. Only the order of the ids within
a level, which records arrival, is not determined.

* `MarketManager.registry` — the order value registered under each id;
  `MarketManager.idView` — a tree's levels with their orders given by id;
* `Levels` — levels as a tree holds them (prices strictly in tree order, non-empty levels
  without repeats), and `Levels.forall₂` — two such lists with the same orders at the same
  prices have the same prices in the same order and, level by level, the same ids;
* `Inv.restsAt_idView_iff` — under the invariant, order `x` rests at price `p` in tree `i` of
  book `k` exactly when its registered value routes it there;
* `Inv.idView_perm` — so two engines with the same registry have, in every tree of every book,
  the same levels holding the same ids.
-/

namespace GoTrader.Matching

open MarketManager

/-- The order value registered under `id`.
Source: `market_manager.go` `MarketManager.orders`
Kind: D -/
def MarketManager.registry (m : MarketManager) (id : UInt64) : Option Order :=
  (m.orders id).map fun a => (m.heap.orderNodes a).order

/-- Tree `i` of the book under `k`: its levels in order, each with its price and the ids of its
orders in list order.
Source: none: the design's view of a book (`spec.md` §3)
Kind: D -/
def MarketManager.idView (m : MarketManager) (k : UInt32) (i : LevelIndex) :
    List (UInt64 × List UInt64) :=
  (m.view k i).map fun e => (e.1, e.2.map fun a => (m.heap.orderNodes a).order.id)

/-! ## Lists of levels -/

/-- Order `x` rests at price `p` in the levels `v`. Source: none. Kind: D -/
def RestsAt (v : List (UInt64 × List UInt64)) (p x : UInt64) : Prop :=
  ∃ e ∈ v, e.1 = p ∧ x ∈ e.2

theorem restsAt_cons {e : UInt64 × List UInt64} {v : List (UInt64 × List UInt64)} {p x : UInt64} :
    RestsAt (e :: v) p x ↔ (e.1 = p ∧ x ∈ e.2) ∨ RestsAt v p x := by
  simp [RestsAt]

/-- Levels as a tree holds them: prices strictly in the tree's order `d`, each level non-empty
and without repeats.
Source: none: the shape of `MarketManager.view` under the invariant
Kind: D -/
structure Levels (d : Bool) (v : List (UInt64 × List UInt64)) : Prop where
  sorted : (v.map Prod.fst).Pairwise (AVLTree.precedes d)
  nonempty : ∀ e ∈ v, e.2 ≠ []
  nodup : ∀ e ∈ v, e.2.Nodup

namespace Levels

variable {d : Bool} {v w : List (UInt64 × List UInt64)}

theorem tail {e : UInt64 × List UInt64} (h : Levels d (e :: v)) : Levels d v :=
  ⟨(List.pairwise_cons.1 h.sorted).2, fun f hf => h.nonempty f (List.mem_cons_of_mem _ hf),
    fun f hf => h.nodup f (List.mem_cons_of_mem _ hf)⟩

/-- The head level's price is the price of no later level. Source: none. Kind: L -/
theorem head_fresh {e : UInt64 × List UInt64} (h : Levels d (e :: v)) {p x : UInt64}
    (hr : RestsAt v p x) : p ≠ e.1 := by
  obtain ⟨f, hf, rfl, -⟩ := hr
  have hp := (List.pairwise_cons.1 h.sorted).1 f.1 (List.mem_map_of_mem _ hf)
  exact fun e' => AVLTree.precedes_irrefl _ (e' ▸ hp)

theorem mem_prices_iff (h : Levels d v) {p : UInt64} :
    p ∈ v.map Prod.fst ↔ ∃ x, RestsAt v p x := by
  constructor
  · intro hp
    obtain ⟨e, he, rfl⟩ := List.mem_map.1 hp
    obtain ⟨x, hx⟩ := List.exists_mem_of_ne_nil _ (h.nonempty e he)
    exact ⟨x, e, he, rfl, hx⟩
  · rintro ⟨x, e, he, rfl, -⟩
    exact List.mem_map_of_mem _ he

/-- Levels with the same orders at the same prices have the same prices, in the same order.
Source: none
Kind: L -/
theorem prices_eq (hv : Levels d v) (hw : Levels d w) (h : ∀ p x, RestsAt v p x ↔ RestsAt w p x) :
    v.map Prod.fst = w.map Prod.fst := by
  have nodup : ∀ {u}, Levels d u → (u.map Prod.fst).Nodup := fun hu =>
    hu.sorted.imp fun {a b} (hp : AVLTree.precedes d a b) (e : a = b) =>
      AVLTree.precedes_irrefl b (e ▸ hp)
  have : IsAntisymm UInt64 (AVLTree.precedes d) := ⟨fun _ _ h h' => (AVLTree.precedes_asymm h h').elim⟩
  refine List.eq_of_perm_of_sorted ((List.perm_ext_iff_of_nodup (nodup hv) (nodup hw)).2
    fun p => ?_) hv.sorted hw.sorted
  rw [hv.mem_prices_iff, hw.mem_prices_iff]
  exact exists_congr fun x => h p x

theorem forall₂_of_prices : ∀ {v w : List (UInt64 × List UInt64)}, Levels d v → Levels d w →
    v.map Prod.fst = w.map Prod.fst → (∀ p x, RestsAt v p x ↔ RestsAt w p x) →
      List.Forall₂ (fun e f => e.1 = f.1 ∧ e.2.Perm f.2) v w
  | [], [], _, _, _, _ => .nil
  | [], _ :: _, _, _, hp, _ => by simp at hp
  | _ :: _, [], _, _, hp, _ => by simp at hp
  | e :: v, f :: w, hv, hw, hp, h => by
    simp only [List.map_cons, List.cons.injEq] at hp
    obtain ⟨he, hp⟩ := hp
    refine .cons ⟨he, (List.perm_ext_iff_of_nodup (hv.nodup e (List.mem_cons_self _ _))
      (hw.nodup f (List.mem_cons_self _ _))).2 fun x => ?_⟩
      (forall₂_of_prices hv.tail hw.tail hp fun p x => ?_)
    · -- the head levels hold the same ids
      have := h e.1 x
      rw [restsAt_cons, restsAt_cons, he] at this
      have hv' : ¬ RestsAt v f.1 x := fun hr => hv.head_fresh hr he.symm
      have hw' : ¬ RestsAt w f.1 x := fun hr => hw.head_fresh hr rfl
      simpa [hv', hw'] using this
    · -- and so do the later ones
      by_cases hpe : p = e.1
      · subst hpe
        exact iff_of_false (fun hr => hv.head_fresh hr rfl) (fun hr => hw.head_fresh hr he)
      · have := h p x
        rw [restsAt_cons, restsAt_cons] at this
        have hf : f.1 ≠ p := fun e' => hpe (he.trans e').symm
        simpa [Ne.symm hpe, hf] using this

/-- Two lists of levels with the same orders at the same prices: the same prices in the same
order, and, level by level, the same ids (in any order).
Source: none
Kind: L -/
theorem forall₂ (hv : Levels d v) (hw : Levels d w) (h : ∀ p x, RestsAt v p x ↔ RestsAt w p x) :
    List.Forall₂ (fun e f => e.1 = f.1 ∧ e.2.Perm f.2) v w :=
  forall₂_of_prices hv hw (prices_eq hv hw h) h

end Levels

/-! ## The engine's trees -/

namespace Inv

variable {m : MarketManager}

theorem mem_idView_iff {k : UInt32} {i : LevelIndex} {e : UInt64 × List UInt64} :
    e ∈ m.idView k i ↔ ∃ L ∈ m.levelIds k i,
      e = (m.heap.price L, (m.heap.nodes L).map fun a => (m.heap.orderNodes a).order.id) := by
  simp [idView, view, eq_comm]

/-- Under the invariant every tree is a list of `Levels`.
Source: `orderbook.go`, `avltree.go`
Kind: L -/
theorem levels_idView (hI : Inv m none none) (k : UInt32) (i : LevelIndex) :
    Levels i.descending (m.idView k i) where
  sorted := by
    simpa [idView, view, List.map_map, Function.comp_def, List.pairwise_map] using hI.sorted k i
  nonempty e he := by
    obtain ⟨L, hL, rfl⟩ := mem_idView_iff.1 he
    simpa using hI.nonempty hL nofun
  nodup e he := by
    obtain ⟨L, hL, rfl⟩ := mem_idView_iff.1 he
    refine (hI.nodes_nodup hL).map_on fun a ha b hb hab => ?_
    have ra := (hI.linked hL ha).registered
    rw [hab, (hI.linked hL hb).registered] at ra
    exact (Option.some.inj ra).symm

/-- Under the invariant, order `x` rests at price `p` in tree `i` of book `k` exactly when it
is registered with a value of book `k` that routes it to tree `i` at price `p`.
Source: `orderbook.go` `(*OrderBook).AddOrder`; `market_manager.go` `AddOrder`
Kind: L -/
theorem restsAt_idView_iff (hI : Inv m none none) {k : UInt32} {i : LevelIndex} {p x : UInt64} :
    RestsAt (m.idView k i) p x ↔ ∃ o, m.registry x = some o ∧ o.symbolID = k ∧
      LevelIndex.ofOrder o = i ∧ routingPrice o = p := by
  constructor
  · rintro ⟨e, he, rfl, hx⟩
    obtain ⟨L, hL, rfl⟩ := mem_idView_iff.1 he
    obtain ⟨a, ha, rfl⟩ := List.mem_map.1 hx
    have l := hI.linked hL ha
    exact ⟨_, by simp [registry, l.registered], l.symbol, l.index, l.price⟩
  · rintro ⟨o, ho, rfl, rfl, rfl⟩
    obtain ⟨a, ha, rfl⟩ := Option.map_eq_some'.1 ho
    have r := hI.registered ha
    obtain ⟨L, hL, haL⟩ := r.placed nofun
    refine ⟨_, mem_idView_iff.2 ⟨L, hL, rfl⟩, (hI.linked hL haL).price.symm, ?_⟩
    exact List.mem_map.2 ⟨a, haL, r.id⟩

/-- Two engines with the same registry have, in every tree of every book, the same level prices
in the same order, and level by level the same order ids.
Source: none: consequence of the invariant
Kind: L -/
theorem idView_perm {m' : MarketManager} (hI : Inv m none none) (hI' : Inv m' none none)
    (hr : m'.registry = m.registry) (k : UInt32) (i : LevelIndex) :
    List.Forall₂ (fun e f => e.1 = f.1 ∧ e.2.Perm f.2) (m'.idView k i) (m.idView k i) :=
  (hI'.levels_idView k i).forall₂ (hI.levels_idView k i) fun _ _ => by
    rw [hI'.restsAt_idView_iff, hI.restsAt_idView_iff, hr]

end Inv

end GoTrader.Matching
