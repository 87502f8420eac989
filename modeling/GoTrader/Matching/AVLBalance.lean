import Mathlib.Data.Nat.Fib.Basic
import Mathlib.Data.Nat.Log
import GoTrader.Matching.AVLTreeSpec

/-!
# Balance under insertion and removal

`Insert` and `Remove` reach none of `rebalance`'s nil dereferences on a tree whose stored
balances are the height differences and lie in `-1..1`, and they keep that property:

* `Tree.AVL` — the property, at every node;
* `Tree.rotateRight_exact`, `Tree.rotateLeft_exact` — the rotations' balance updates give the
  height differences of the rotated tree;
* `Tree.rebalance_left`, `Tree.rebalance_right` — at a node two levels heavier on one side
  whose heavier child leans, the single or double rotation gives an AVL tree one level lower;
* `Tree.insertAux_avl` — `insertAux` succeeds and returns an AVL tree, one level taller exactly
  when it reports growth (`Tree.Grown`);
* `AVLTree.insert_avl` — so `Insert` succeeds on an AVL tree and keeps it AVL;
* `Tree.rebalance_left_zero`, `Tree.rebalance_right_zero` — after a removal the heavier child
  may be even, and the single rotation then keeps the height;
* `Tree.fixRemove_left`, `Tree.fixRemove_right` — one `rebalanceRemove` step after a side lost
  a level, with its `oldBalance` and post-rotation exits;
* `Tree.removeMin_avl`, `Tree.removeAux_avl` — removal succeeds on an AVL tree holding the node
  and returns an AVL tree, one level lower exactly when the walk goes on (`Tree.Shrunk`);
* `AVLTree.remove_avl` — so `Remove` of a node in an AVL tree succeeds and keeps it AVL;
* `Tree.AVL.fib_height_le`, `Tree.AVL.height_le_log` — an AVL tree of height `h` has at least
  `fib (h + 2) - 1` nodes, so `h ≤ 2 log₂ (n + 1) + 1` for `n` nodes: the walks of `Find`,
  `Insert` and `Remove` are logarithmic.
-/

namespace GoTrader.Matching

namespace Tree

theorem height_node (l : Tree) (x : Nat) (b : Int) (r : Tree) :
    (node l x b r).height = max l.height r.height + 1 := by
  simp only [height]
  split_ifs <;> omega

@[simp] theorem height_nil : nil.height = 0 := rfl

theorem height_nonneg : ∀ t : Tree, 0 ≤ t.height
  | nil => le_rfl
  | node l x b r => by rw [height_node]; have := height_nonneg l; omega

/-- Every stored balance is the height of the right subtree minus that of the left, and lies in
`-1..1`.
Source: `avltree.go` (the `Balance` field as `Insert` maintains it)
Kind: D -/
def AVL : Tree → Prop
  | nil => True
  | node l _ b r => l.AVL ∧ r.AVL ∧ b = r.height - l.height ∧ -1 ≤ b ∧ b ≤ 1

@[simp] theorem avl_nil : nil.AVL := trivial

@[simp] theorem avl_node (l : Tree) (x : Nat) (b : Int) (r : Tree) :
    (node l x b r).AVL ↔ l.AVL ∧ r.AVL ∧ b = r.height - l.height ∧ -1 ≤ b ∧ b ≤ 1 := Iff.rfl

/-- What `insertAux` returns for the subtree `t`: an AVL tree one level taller exactly when the
flag says it grew, and, when it grew past a single node, leaning to one side.
Source: none: the invariant of `rebalanceInsert`'s loop
Kind: D -/
structure Grown (t t' : Tree) (g : Bool) : Prop where
  avl : t'.AVL
  height : t'.height = t.height + if g then 1 else 0
  leans : g = true → t'.balance ≠ 0 ∨ t'.height = 1

/-! ## Rotations -/

/-- `rotateRight`'s balance updates are exact. Source: `avltree.go` `rotateRight`. Kind: L -/
theorem rotateRight_exact (a b c : Tree) (y x : Nat) (bp bn : Int)
    (hp : bp = b.height - a.height) (hn : bn = c.height - (max a.height b.height + 1)) :
    (node (node a y bp b) x bn c).rotateRight =
      some (node a y (max b.height c.height + 1 - a.height) (node b x (c.height - b.height) c)) := by
  simp only [rotateRight, Option.some.injEq, node.injEq, true_and, and_true]
  omega

/-- `rotateLeft`'s balance updates are exact. Source: `avltree.go` `rotateLeft`. Kind: L -/
theorem rotateLeft_exact (a b c : Tree) (x y : Nat) (bn bp : Int)
    (hn : bn = max b.height c.height + 1 - a.height) (hp : bp = c.height - b.height) :
    (node a x bn (node b y bp c)).rotateLeft =
      some (node (node a x (b.height - a.height) b) y (c.height - (max a.height b.height + 1)) c) := by
  simp only [rotateLeft, Option.some.injEq, node.injEq, true_and, and_true]
  omega

/-- At a node two levels heavier on the left whose left child leans, `rebalance` (a right
rotation, or a left-right double rotation) gives an AVL tree one level lower.
Source: `avltree.go` `rebalance`
Kind: L -/
theorem rebalance_left {a c r : Tree} {y x : Nat} {lb : Int} (ha : a.AVL) (hc : c.AVL)
    (hr : r.AVL) (hlb : lb = c.height - a.height) (hlean : lb = -1 ∨ lb = 1)
    (hh : max a.height c.height + 1 = r.height + 2) :
    ∃ t', (node (node a y lb c) x (-2) r).rebalance = some t' ∧ t'.AVL ∧
      t'.height = r.height + 2 ∧ t'.balance = 0 := by
  rcases hlean with rfl | rfl
  · -- left-left: one right rotation
    have e := rotateRight_exact a c r y x (-1) (-2) hlb (by omega)
    refine ⟨_, Eq.trans (by simp [rebalance]) e, ?_⟩
    simp only [avl_node, height_node, balance, true_and]
    exact ⟨⟨ha, ⟨hc, hr, by omega⟩, by omega⟩, by omega, by omega⟩
  · -- left-right: rotate the left child left, then the node right
    obtain _ | ⟨c₁, z, bz, c₂⟩ := c
    · simp at hlb; have := height_nonneg a; omega
    obtain ⟨hc₁, hc₂, hbz, hbz₁, hbz₂⟩ := hc
    rw [height_node] at hlb hh
    have e₁ := rotateLeft_exact a c₁ c₂ y z 1 bz (by omega) hbz
    have e₂ := rotateRight_exact (node a y (c₁.height - a.height) c₁) c₂ r z x _ (-2)
      (by rw [height_node]) (by rw [height_node]; omega)
    refine ⟨_, Eq.trans (by simp [rebalance, e₁]) e₂, ?_⟩
    simp only [avl_node, height_node, balance, true_and]
    exact ⟨⟨⟨ha, hc₁, by omega⟩, ⟨hc₂, hr, by omega⟩, by omega⟩, by omega, by omega⟩

/-- The mirror image of `rebalance_left`. Source: `avltree.go` `rebalance`. Kind: L -/
theorem rebalance_right {l a c : Tree} {x y : Nat} {rb : Int} (hl : l.AVL) (ha : a.AVL)
    (hc : c.AVL) (hrb : rb = c.height - a.height) (hlean : rb = -1 ∨ rb = 1)
    (hh : max a.height c.height + 1 = l.height + 2) :
    ∃ t', (node l x 2 (node a y rb c)).rebalance = some t' ∧ t'.AVL ∧
      t'.height = l.height + 2 ∧ t'.balance = 0 := by
  rcases hlean with rfl | rfl
  · -- right-left: rotate the right child right, then the node left
    obtain _ | ⟨a₁, z, bz, a₂⟩ := a
    · simp at hrb; have := height_nonneg c; omega
    obtain ⟨ha₁, ha₂, hbz, hbz₁, hbz₂⟩ := ha
    rw [height_node] at hrb hh
    have e₁ := rotateRight_exact a₁ a₂ c z y bz (-1) hbz (by omega)
    have e₂ := rotateLeft_exact l a₁ (node a₂ y (c.height - a₂.height) c) x z 2 _
      (by rw [height_node]; omega) (by rw [height_node])
    refine ⟨_, Eq.trans (by simp [rebalance, e₁]) e₂, ?_⟩
    simp only [avl_node, height_node, balance, true_and]
    exact ⟨⟨⟨hl, ha₁, by omega⟩, ⟨ha₂, hc, by omega⟩, by omega⟩, by omega, by omega⟩
  · -- right-right: one left rotation
    have e := rotateLeft_exact l a c x y 2 1 (by omega) hrb
    refine ⟨_, Eq.trans (by simp [rebalance]) e, ?_⟩
    simp only [avl_node, height_node, balance, true_and]
    exact ⟨⟨⟨hl, ha, by omega⟩, hc, by omega⟩, by omega, by omega⟩

/-! ## Insertion -/

/-- A subtree that did not grow leaves its parent as it was. Source: none. Kind: L -/
theorem Grown.keep_left {l l' r : Tree} {x : Nat} {b : Int} (ht : (node l x b r).AVL)
    (hl : Grown l l' false) : Grown (node l x b r) (node l' x b r) false := by
  obtain ⟨hal, har, hb, hb₁, hb₂⟩ := ht
  have hh := hl.height
  simp only [Bool.false_eq_true, if_false, add_zero] at hh
  exact ⟨⟨hl.avl, har, by omega, hb₁, hb₂⟩, by simp [height_node, hh], nofun⟩

theorem Grown.keep_right {l r r' : Tree} {x : Nat} {b : Int} (ht : (node l x b r).AVL)
    (hr : Grown r r' false) : Grown (node l x b r) (node l x b r') false := by
  obtain ⟨hal, har, hb, hb₁, hb₂⟩ := ht
  have hh := hr.height
  simp only [Bool.false_eq_true, if_false, add_zero] at hh
  exact ⟨⟨hal, hr.avl, by omega, hb₁, hb₂⟩, by simp [height_node, hh], nofun⟩

/-- One `rebalanceInsert` step after the left subtree grew.
Source: `avltree.go` `rebalanceInsert`
Kind: L -/
theorem fixInsert_left {l l' r : Tree} {x : Nat} {b : Int} (ht : (node l x b r).AVL)
    (hl : Grown l l' true) :
    ∃ t' g, (node l' x (b - 1) r).fixInsert = some (t', g) ∧ Grown (node l x b r) t' g := by
  obtain ⟨hal, har, hb, hb₁, hb₂⟩ := ht
  obtain ⟨hal', hh, hlean⟩ := hl
  simp only [if_true] at hh
  have hl₀ := height_nonneg l
  have hr₀ := height_nonneg r
  by_cases h₀ : b - 1 = 0
  · -- the left side caught up
    refine ⟨node l' x (b - 1) r, false, by simp [fixInsert, h₀],
      ⟨⟨hal', har, by omega, by omega, by omega⟩, ?_, nofun⟩⟩
    simp only [height_node, Bool.false_eq_true, if_false, add_zero]; omega
  by_cases h₂ : b - 1 = -2
  · -- two levels heavier on the left: rotate
    obtain _ | ⟨a, y, lb, c⟩ := l'
    · simp at hh; omega
    obtain ⟨ha, hc, hlb, hlb₁, hlb₂⟩ := hal'
    rw [height_node] at hh
    have hlean' : lb = -1 ∨ lb = 1 := by
      rcases hlean rfl with h | h
      · simp only [balance] at h; omega
      · rw [height_node] at h; omega
    obtain ⟨t', e, ht', hh', -⟩ := @rebalance_left a c r y x lb ha hc har hlb hlean' (by omega)
    refine ⟨t', false, by simp [fixInsert, h₂, e], ⟨ht', ?_, nofun⟩⟩
    simp only [height_node, Bool.false_eq_true, if_false, add_zero]; omega
  · -- the node grew and now leans left
    refine ⟨node l' x (b - 1) r, true, by simp [fixInsert, h₀, h₂, show b - 1 ≠ 2 by omega],
      ⟨⟨hal', har, by omega, by omega, by omega⟩, ?_, fun _ => .inl (by simp [balance]; omega)⟩⟩
    simp only [height_node, if_true]; omega

/-- One `rebalanceInsert` step after the right subtree grew.
Source: `avltree.go` `rebalanceInsert`
Kind: L -/
theorem fixInsert_right {l r r' : Tree} {x : Nat} {b : Int} (ht : (node l x b r).AVL)
    (hr : Grown r r' true) :
    ∃ t' g, (node l x (b + 1) r').fixInsert = some (t', g) ∧ Grown (node l x b r) t' g := by
  obtain ⟨hal, har, hb, hb₁, hb₂⟩ := ht
  obtain ⟨har', hh, hlean⟩ := hr
  simp only [if_true] at hh
  have hl₀ := height_nonneg l
  have hr₀ := height_nonneg r
  by_cases h₀ : b + 1 = 0
  · -- the right side caught up
    refine ⟨node l x (b + 1) r', false, by simp [fixInsert, h₀],
      ⟨⟨hal, har', by omega, by omega, by omega⟩, ?_, nofun⟩⟩
    simp only [height_node, Bool.false_eq_true, if_false, add_zero]; omega
  by_cases h₂ : b + 1 = 2
  · -- two levels heavier on the right: rotate
    obtain _ | ⟨a, y, rb, c⟩ := r'
    · simp at hh; omega
    obtain ⟨ha, hc, hrb, hrb₁, hrb₂⟩ := har'
    rw [height_node] at hh
    have hlean' : rb = -1 ∨ rb = 1 := by
      rcases hlean rfl with h | h
      · simp only [balance] at h; omega
      · rw [height_node] at h; omega
    obtain ⟨t', e, ht', hh', -⟩ := @rebalance_right l a c x y rb hal ha hc hrb hlean' (by omega)
    refine ⟨t', false, by simp [fixInsert, h₂, e], ⟨ht', ?_, nofun⟩⟩
    simp only [height_node, Bool.false_eq_true, if_false, add_zero]; omega
  · -- the node grew and now leans right
    refine ⟨node l x (b + 1) r', true, by simp [fixInsert, h₀, h₂, show b + 1 ≠ -2 by omega],
      ⟨⟨hal, har', by omega, by omega, by omega⟩, ?_, fun _ => .inl (by simp [balance]; omega)⟩⟩
    simp only [height_node, if_true]; omega

/-- `insertAux` succeeds on an AVL tree and returns an AVL tree, one level taller exactly when it
reports growth.
Source: `avltree.go` `Insert`, `rebalanceInsert`
Kind: L -/
theorem insertAux_avl (price : Nat → UInt64) (d : Bool) (level : Nat) :
    ∀ {t : Tree}, t.AVL → ∃ t' g, t.insertAux price d level = some (t', g) ∧ Grown t t' g
  | nil, _ => ⟨_, true, rfl, ⟨by simp, by simp [height_node], fun _ => .inr (by simp [height_node])⟩⟩
  | node l x b r, ht => by
    unfold insertAux
    split_ifs
    · obtain ⟨l', g, e, hg⟩ := insertAux_avl price d level ht.1
      rw [e]
      cases g
      · exact ⟨_, false, rfl, hg.keep_left ht⟩
      · exact fixInsert_left ht hg
    · obtain ⟨r', g, e, hg⟩ := insertAux_avl price d level ht.2.1
      rw [e]
      cases g
      · exact ⟨_, false, rfl, hg.keep_right ht⟩
      · exact fixInsert_right ht hg

/-! ## Removal -/

/-- What a removal from the subtree `t` returns: an AVL tree, one level lower exactly when the
flag says the walk goes on at the parent.
Source: none: the invariant of `rebalanceRemove`'s loop
Kind: D -/
structure Shrunk (t t' : Tree) (c : Bool) : Prop where
  avl : t'.AVL
  height : t'.height + (if c then 1 else 0) = t.height

/-- At a node two levels heavier on the left whose left child is even (possible only after a
removal), the single right rotation gives an AVL tree of the same height, leaning right.
Source: `avltree.go` `rebalance`
Kind: L -/
theorem rebalance_left_zero {a c r : Tree} {y x : Nat} (ha : a.AVL) (hc : c.AVL) (hr : r.AVL)
    (hac : c.height = a.height) (hh : a.height = r.height + 1) :
    ∃ t', (node (node a y 0 c) x (-2) r).rebalance = some t' ∧ t'.AVL ∧
      t'.height = r.height + 3 ∧ t'.balance = 1 := by
  have e := rotateRight_exact a c r y x 0 (-2) (by omega) (by omega)
  refine ⟨_, Eq.trans (by simp [rebalance]) e, ?_⟩
  simp only [avl_node, height_node, balance, true_and]
  exact ⟨⟨ha, ⟨hc, hr, by omega⟩, by omega⟩, by omega, by omega⟩

/-- The mirror image of `rebalance_left_zero`. Source: `avltree.go` `rebalance`. Kind: L -/
theorem rebalance_right_zero {l a c : Tree} {x y : Nat} (hl : l.AVL) (ha : a.AVL) (hc : c.AVL)
    (hac : c.height = a.height) (hh : a.height = l.height + 1) :
    ∃ t', (node l x 2 (node a y 0 c)).rebalance = some t' ∧ t'.AVL ∧
      t'.height = l.height + 3 ∧ t'.balance = -1 := by
  have e := rotateLeft_exact l a c x y 2 0 (by omega) (by omega)
  refine ⟨_, Eq.trans (by simp [rebalance]) e, ?_⟩
  simp only [avl_node, height_node, balance, true_and]
  exact ⟨⟨⟨hl, ha, by omega⟩, hc, by omega⟩, by omega, by omega⟩

/-- A subtree that kept its height leaves its parent as it was. Source: none. Kind: L -/
theorem Shrunk.keep_left {l l' r : Tree} {x : Nat} {b : Int} (ht : (node l x b r).AVL)
    (hl : Shrunk l l' false) : Shrunk (node l x b r) (node l' x b r) false := by
  obtain ⟨hal, har, hb, hb₁, hb₂⟩ := ht
  have hh := hl.height
  simp only [Bool.false_eq_true, if_false, add_zero] at hh
  exact ⟨⟨hl.avl, har, by omega, hb₁, hb₂⟩, by simp [height_node, hh]⟩

theorem Shrunk.keep_right {l r r' : Tree} {x : Nat} {b : Int} (ht : (node l x b r).AVL)
    (hr : Shrunk r r' false) : Shrunk (node l x b r) (node l x b r') false := by
  obtain ⟨hal, har, hb, hb₁, hb₂⟩ := ht
  have hh := hr.height
  simp only [Bool.false_eq_true, if_false, add_zero] at hh
  exact ⟨⟨hal, hr.avl, by omega, hb₁, hb₂⟩, by simp [height_node, hh]⟩

/-- One `rebalanceRemove` step after the left subtree lost a level.
Source: `avltree.go` `rebalanceRemove`
Kind: L -/
theorem fixRemove_left {l l' r : Tree} {x : Nat} {b : Int} (ht : (node l x b r).AVL)
    (hl : Shrunk l l' true) :
    ∃ t' c, (node l' x b r).fixRemove = some (t', c) ∧ Shrunk (node l x b r) t' c := by
  obtain ⟨hal, har, hb, hb₁, hb₂⟩ := ht
  obtain ⟨hal', hh⟩ := hl
  simp only [if_true] at hh
  have hl₀ := height_nonneg l'
  by_cases h₂ : r.height - l'.height = 2
  · -- the right side is now two levels higher: rotate
    obtain _ | ⟨a, y, rb, c⟩ := r
    · simp at h₂; omega
    obtain ⟨ha, hc, hrb, hrb₁, hrb₂⟩ := har
    rw [height_node] at h₂ hb
    by_cases h₀ : rb = 0
    · subst h₀
      obtain ⟨t', e, ht', hh', hbal⟩ := rebalance_right_zero (x := x) (y := y) hal' ha hc (by omega) (by omega)
      refine ⟨t', false, by simp [fixRemove, height_node, h₂, e, hbal], ⟨ht', ?_⟩⟩
      simp only [height_node, Bool.false_eq_true, if_false, add_zero]; omega
    · obtain ⟨t', e, ht', hh', hbal⟩ :=
        rebalance_right (x := x) (y := y) hal' ha hc hrb (by omega) (by omega)
      refine ⟨t', true, by simp [fixRemove, height_node, h₂, e, hbal], ⟨ht', ?_⟩⟩
      simp only [height_node, if_true]; omega
  · -- no rotation: the node keeps its height when it was even, and loses a level otherwise
    refine ⟨node l' x (r.height - l'.height) r, decide (b ≠ 0),
      by simp [fixRemove, h₂, show r.height - l'.height ≠ -2 by omega], ⟨⟨hal', har, rfl, by omega, by omega⟩, ?_⟩⟩
    simp only [height_node, decide_eq_true_eq]
    split_ifs <;> omega

/-- One `rebalanceRemove` step after the right subtree lost a level.
Source: `avltree.go` `rebalanceRemove`
Kind: L -/
theorem fixRemove_right {l r r' : Tree} {x : Nat} {b : Int} (ht : (node l x b r).AVL)
    (hr : Shrunk r r' true) :
    ∃ t' c, (node l x b r').fixRemove = some (t', c) ∧ Shrunk (node l x b r) t' c := by
  obtain ⟨hal, har, hb, hb₁, hb₂⟩ := ht
  obtain ⟨har', hh⟩ := hr
  simp only [if_true] at hh
  have hr₀ := height_nonneg r'
  by_cases h₂ : r'.height - l.height = -2
  · -- the left side is now two levels higher: rotate
    obtain _ | ⟨a, y, lb, c⟩ := l
    · simp at h₂; omega
    obtain ⟨ha, hc, hlb, hlb₁, hlb₂⟩ := hal
    rw [height_node] at h₂ hb
    by_cases h₀ : lb = 0
    · subst h₀
      obtain ⟨t', e, ht', hh', hbal⟩ :=
        rebalance_left_zero (x := x) (y := y) ha hc har' (by omega) (by omega)
      refine ⟨t', false, by simp [fixRemove, height_node, h₂, e, hbal], ⟨ht', ?_⟩⟩
      simp only [height_node, Bool.false_eq_true, if_false, add_zero]; omega
    · obtain ⟨t', e, ht', hh', hbal⟩ :=
        rebalance_left (x := x) (y := y) ha hc har' hlb (by omega) (by omega)
      refine ⟨t', true, by simp [fixRemove, height_node, h₂, e, hbal], ⟨ht', ?_⟩⟩
      simp only [height_node, if_true]; omega
  · -- no rotation: the node keeps its height when it was even, and loses a level otherwise
    refine ⟨node l x (r'.height - l.height) r', decide (b ≠ 0),
      by simp [fixRemove, h₂, show r'.height - l.height ≠ 2 by omega],
      ⟨⟨hal, har', rfl, by omega, by omega⟩, ?_⟩⟩
    simp only [height_node, decide_eq_true_eq]
    split_ifs <;> omega

/-- `removeMin` succeeds on a non-empty AVL tree and returns an AVL tree, one level lower
exactly when it says the walk goes on. Source: `avltree.go` `Remove`, `rebalanceRemove`.
Kind: L -/
theorem removeMin_avl : ∀ {t : Tree}, t.AVL → t ≠ nil →
    ∃ t' s c, t.removeMin = some (t', s, c) ∧ Shrunk t t' c
  | nil, _, h => absurd rfl h
  | node nil s b r, ht, _ => by
    obtain ⟨-, har, hb, hb₁, hb₂⟩ := ht
    refine ⟨r, s, true, rfl, har, ?_⟩
    simp only [avl_node, height_node, height_nil, if_true] at hb ⊢
    have := height_nonneg r
    omega
  | node (node ll lx lb lr) x b r, ht, _ => by
    obtain ⟨l', s, c, e, hs⟩ := removeMin_avl ht.1 nofun
    unfold removeMin
    rw [e]
    cases c
    · exact ⟨_, s, false, rfl, hs.keep_left ht⟩
    · obtain ⟨t', c', e', hs'⟩ := fixRemove_left ht hs
      exact ⟨t', s, c', by simp [e'], hs'⟩

/-- Splicing out a node with an empty side leaves its other side, one level lower.
Source: none. Kind: L -/
theorem Shrunk.splice_left {x : Nat} {b : Int} {r : Tree} (ht : (node nil x b r).AVL) :
    Shrunk (node nil x b r) r true := by
  obtain ⟨-, har, -, -, -⟩ := ht
  refine ⟨har, ?_⟩
  simp only [height_node, height_nil, if_true]
  have := height_nonneg r
  omega

theorem Shrunk.splice_right {l : Tree} {x : Nat} {b : Int} (ht : (node l x b nil).AVL) :
    Shrunk (node l x b nil) l true := by
  obtain ⟨hal, -, -, -, -⟩ := ht
  refine ⟨hal, ?_⟩
  simp only [height_node, height_nil, if_true]
  have := height_nonneg l
  omega

/-- `removeAux` succeeds on an AVL tree holding the node and returns an AVL tree, one level lower
exactly when it says the walk goes on. Source: `avltree.go` `Remove`, `rebalanceRemove`.
Kind: L -/
theorem removeAux_avl (level : Nat) : ∀ {t : Tree}, t.AVL → level ∈ t.ids →
    ∃ t' c s, t.removeAux level = some (t', c, s) ∧ Shrunk t t' c
  | nil, _, h => by simp [ids] at h
  | node l x b r, ht, hmem => by
    unfold removeAux
    split_ifs with hx hl
    · -- the node itself: splice out a side, or detach its successor
      cases l with
      | nil => cases r <;> exact ⟨_, true, none, rfl, .splice_left ht⟩
      | node ll lx lb lr =>
        cases r with
        | nil => exact ⟨_, true, none, rfl, .splice_right ht⟩
        | node rl rx rb rr =>
          obtain ⟨r', s, c, e, hs⟩ := removeMin_avl ht.2.1 nofun
          simp only [e]
          cases c
          · exact ⟨_, false, some s, rfl, hs.keep_right ht⟩
          · obtain ⟨t', c', e', hs'⟩ := fixRemove_right ht hs
            exact ⟨t', c', some s, by simp [e'], hs'⟩
    · obtain ⟨l', c, s, e, hs⟩ := removeAux_avl level ht.1 hl
      rw [e]
      cases c
      · exact ⟨_, false, s, rfl, hs.keep_left ht⟩
      · obtain ⟨t', c', e', hs'⟩ := fixRemove_left ht hs
        exact ⟨t', c', s, by simp [e'], hs'⟩
    · have hr : level ∈ r.ids := by simp [ids] at hmem; tauto
      obtain ⟨r', c, s, e, hs⟩ := removeAux_avl level ht.2.1 hr
      rw [e]
      cases c
      · exact ⟨_, false, s, rfl, hs.keep_right ht⟩
      · obtain ⟨t', c', e', hs'⟩ := fixRemove_right ht hs
        exact ⟨t', c', s, by simp [e'], hs'⟩

/-! ## Height -/

/-- The Fibonacci step of the height bound: a node over subtrees of heights `a` and `b`, with
`a ≤ b ≤ a + 1`. Source: none. Kind: L -/
theorem fib_node {a b x y : Nat} (hab : a ≤ b) (hba : b ≤ a + 1) (hx : Nat.fib (a + 2) ≤ x + 1)
    (hy : Nat.fib (b + 2) ≤ y + 1) : Nat.fib (b + 3) ≤ x + 1 + y + 1 := by
  have hf : Nat.fib (b + 3) = Nat.fib (b + 1) + Nat.fib (b + 2) := Nat.fib_add_two
  have : Nat.fib (b + 1) ≤ Nat.fib (a + 2) := Nat.fib_mono (by omega)
  omega

/-- An AVL tree of height `h` has at least `fib (h + 2) - 1` nodes.
Source: `avltree.go` (the `Balance` invariant)
Kind: L -/
theorem AVL.fib_height_le : ∀ {t : Tree}, t.AVL → Nat.fib (t.height.toNat + 2) ≤ t.ids.length + 1
  | nil, _ => le_rfl
  | node l x b r, ⟨hl, hr, hb, hb₁, hb₂⟩ => by
    have il := AVL.fib_height_le hl
    have ir := AVL.fib_height_le hr
    have := height_nonneg l
    have := height_nonneg r
    simp only [height_node, ids, List.length_append, List.length_cons]
    rcases le_total l.height r.height with h | h
    · rw [show (max l.height r.height + 1).toNat + 2 = r.height.toNat + 3 by omega]
      have := fib_node (by omega) (by omega) il ir
      omega
    · rw [show (max l.height r.height + 1).toNat + 2 = l.height.toNat + 3 by omega]
      have := fib_node (by omega) (by omega) ir il
      omega

/-- `fib (n + 2)` is at least `2 ^ (n / 2)`. Source: none. Kind: L -/
theorem two_pow_le_fib : ∀ n : Nat, 2 ^ (n / 2) ≤ Nat.fib (n + 2)
  | 0 => le_rfl
  | 1 => by decide
  | n + 2 => by
    have ih := two_pow_le_fib n
    have hf : Nat.fib (n + 2 + 2) = Nat.fib (n + 2) + Nat.fib (n + 3) := Nat.fib_add_two
    have : Nat.fib (n + 2) ≤ Nat.fib (n + 3) := Nat.fib_le_fib_succ
    rw [show (n + 2) / 2 = n / 2 + 1 by omega, pow_succ]
    omega

/-- An AVL tree with `n` nodes has height at most `2 log₂ (n + 1) + 1`.
Source: `avltree.go` (the `Balance` invariant)
Kind: L -/
theorem AVL.height_le_log {t : Tree} (ht : t.AVL) :
    t.height.toNat ≤ 2 * Nat.log 2 (t.ids.length + 1) + 1 := by
  have := Nat.le_log_of_pow_le (by norm_num) ((two_pow_le_fib _).trans ht.fib_height_le)
  omega

end Tree

/-- `Insert` succeeds on an AVL tree, keeps it AVL and keeps its direction.
Source: `avltree.go` `(*AVLTree).Insert`
Kind: L -/
theorem AVLTree.insert_avl {t : AVLTree} (price : Nat → UInt64) (level : Nat) (ht : t.root.AVL) :
    ∃ t', t.insert price level = some t' ∧ t'.root.AVL ∧ t'.descending = t.descending := by
  unfold AVLTree.insert
  split
  · exact ⟨_, rfl, by simp, rfl⟩
  · obtain ⟨r, g, e, hg⟩ := Tree.insertAux_avl price t.descending level ht
    exact ⟨{ t with root := r, size := t.size + 1 }, by rw [e]; rfl, hg.avl, rfl⟩

/-- `Remove` of a node of an AVL tree succeeds, keeps the tree AVL and keeps its direction.
Source: `avltree.go` `(*AVLTree).Remove`
Kind: L -/
theorem AVLTree.remove_avl {t : AVLTree} (h : Heap) {level : Nat} (ht : t.root.AVL)
    (hl : level ∈ t.root.ids) :
    ∃ t' h', t.remove h (some level) = some (t', h') ∧ t'.root.AVL ∧
      t'.descending = t.descending := by
  obtain ⟨r, c, s, e, hs⟩ := Tree.removeAux_avl level ht hl
  exact ⟨{ t with root := r, size := t.size - 1 }, _, by simp only [AVLTree.remove, e]; rfl,
    hs.avl, rfl⟩

end GoTrader.Matching
