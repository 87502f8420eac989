import GoTrader.Matching.AVLTree
import Mathlib.Data.List.Sort

/-!
# What `avltree.go` computes on the in-order sequence

The tree operations, read through `Tree.ids` (the in-order sequence of node addresses):

* rotations, `rebalance`, `fixInsert` and `fixRemove` keep the sequence (`rebalance_ids`, ...);
* `insertAux` puts `level` where the plain binary-search descent puts it (`insertAux_ids`), which
  on a tree sorted by `AVLTree.precedes` is its sorted position (`insertIds_split`);
* `removeAux L` deletes `L` from the sequence, or (two children) keeps `L` in place and deletes
  the node right after it, its successor (`removeAux_ids`);
* `first` is the head of the sequence and `find` looks a price up in a sorted tree
  (`first_eq_head`, `find_eq_some_iff`).

These are the only facts about the tree that the order book uses.
-/

namespace GoTrader.Matching

/-- `a` comes strictly before `b` in the tree's order (`compare a b < 0`).
Source: `avltree.go` `(*AVLTree).compare`
Kind: D -/
def AVLTree.precedes (descending : Bool) (a b : UInt64) : Prop :=
  AVLTree.compare descending a b < 0

namespace AVLTree

instance (d : Bool) (a b : UInt64) : Decidable (precedes d a b) :=
  inferInstanceAs (Decidable (compare d a b < 0))

/-- `precedes` in terms of the prices: higher first when descending, lower first otherwise.
Source: none: infrastructure
Kind: L -/
theorem precedes_iff {d : Bool} {a b : UInt64} :
    precedes d a b ↔ if d then b.toNat < a.toNat else a.toNat < b.toNat := by
  unfold precedes compare
  cases d <;> simp only [gt_iff_lt, UInt64.lt_iff_toNat_lt, if_true, if_false] <;>
    split_ifs <;> omega

theorem precedes_irrefl {d : Bool} (a : UInt64) : ¬ precedes d a a := by
  rw [precedes_iff]; split_ifs <;> omega

theorem precedes_trans {d : Bool} {a b c : UInt64} (h₁ : precedes d a b) (h₂ : precedes d b c) :
    precedes d a c := by
  rw [precedes_iff] at *; split_ifs at * <;> omega

theorem precedes_asymm {d : Bool} {a b : UInt64} (h : precedes d a b) : ¬ precedes d b a := by
  rw [precedes_iff] at *; split_ifs at * <;> omega

/-- Two different prices are ordered one way or the other.
Source: none: infrastructure
Kind: L -/
theorem precedes_of_not_precedes {d : Bool} {a b : UInt64} (hne : a ≠ b) (h : ¬ precedes d a b) :
    precedes d b a := by
  have hne' : a.toNat ≠ b.toNat := fun e => hne (UInt64.toNat.inj e)
  rw [precedes_iff] at *; split_ifs at * <;> omega

end AVLTree

namespace Tree

@[simp] theorem ids_nil : nil.ids = [] := rfl
@[simp] theorem ids_node (l : Tree) (x : Nat) (b : Int) (r : Tree) :
    (node l x b r).ids = l.ids ++ x :: r.ids := rfl

/-! ## Restructuring keeps the in-order sequence -/

theorem rotateLeft_ids {t t' : Tree} (h : t.rotateLeft = some t') : t'.ids = t.ids := by
  unfold rotateLeft at h
  split at h
  · cases h; simp
  · cases h

theorem rotateRight_ids {t t' : Tree} (h : t.rotateRight = some t') : t'.ids = t.ids := by
  unfold rotateRight at h
  split at h
  · cases h; simp
  · cases h

/-- A single or double rotation keeps the in-order sequence.
Source: none: infrastructure
Kind: L -/
theorem rebalance_ids {t t' : Tree} (h : t.rebalance = some t') : t'.ids = t.ids := by
  unfold rebalance at h
  split at h
  · cases h
  rename_i l x b r
  split_ifs at h
  · split at h
    · cases h
    split_ifs at h
    · exact rotateRight_ids h
    · obtain ⟨l', hl, h⟩ := Option.bind_eq_some.1 h
      rw [rotateRight_ids h, ids_node, ids_node, rotateLeft_ids hl]
  · split at h
    · cases h
    split_ifs at h
    · exact rotateLeft_ids h
    · obtain ⟨r', hr, h⟩ := Option.bind_eq_some.1 h
      rw [rotateLeft_ids h, ids_node, ids_node, rotateRight_ids hr]
  · cases h; rfl

theorem fixInsert_ids {t t' : Tree} {g : Bool} (h : t.fixInsert = some (t', g)) :
    t'.ids = t.ids := by
  unfold fixInsert at h
  split at h
  · cases h
  split_ifs at h
  · cases h; rfl
  · obtain ⟨t'', ht, h⟩ := Option.bind_eq_some.1 h
    cases h; exact rebalance_ids ht
  · cases h; rfl

theorem fixRemove_ids {t t' : Tree} {g : Bool} (h : t.fixRemove = some (t', g)) :
    t'.ids = t.ids := by
  unfold fixRemove at h
  split at h
  · cases h
  split_ifs at h
  · obtain ⟨t'', ht, h⟩ := Option.bind_eq_some.1 h
    cases h; rw [rebalance_ids ht]; rfl
  · cases h; rfl

/-! ## Insertion -/

/-- The in-order sequence after the plain binary-search descent attaches `level`.
Source: none: specification of `Insert`'s descent
Kind: D -/
def insertIds (price : Nat → UInt64) (d : Bool) (level : Nat) : Tree → List Nat
  | nil => [level]
  | node l x _ r =>
    if AVLTree.compare d (price level) (price x) < 0 then insertIds price d level l ++ x :: r.ids
    else l.ids ++ x :: insertIds price d level r

/-- `insertAux` places `level` where the descent does; the rebalancing walk does not move it.
Source: `avltree.go` `(*AVLTree).Insert`
Kind: L -/
theorem insertAux_ids {price : Nat → UInt64} {d : Bool} {level : Nat} :
    ∀ {t t' : Tree} {g : Bool}, t.insertAux price d level = some (t', g) →
      t'.ids = t.insertIds price d level
  | nil, _, _, h => by cases h; rfl
  | node l x b r, t', g, h => by
    unfold insertAux at h
    simp only [insertIds]
    split_ifs at h ⊢
    · obtain ⟨⟨l', g'⟩, hl, h⟩ := Option.bind_eq_some.1 h
      dsimp only at h
      split_ifs at h
      · rw [fixInsert_ids h, ids_node, insertAux_ids hl]
      · cases h; rw [ids_node, insertAux_ids hl]
    · obtain ⟨⟨r', g'⟩, hr, h⟩ := Option.bind_eq_some.1 h
      dsimp only at h
      split_ifs at h
      · rw [fixInsert_ids h, ids_node, insertAux_ids hr]
      · cases h; rw [ids_node, insertAux_ids hr]

/-- The in-order sequence sorted by the tree's order on the node prices.
Source: none: the binary-search-tree property
Kind: D -/
def Sorted (price : Nat → UInt64) (d : Bool) (l : List Nat) : Prop :=
  l.Pairwise fun a b => AVLTree.precedes d (price a) (price b)

theorem sorted_node_iff {price : Nat → UInt64} {d : Bool} {l r : List Nat} {x : Nat} :
    Sorted price d (l ++ x :: r) ↔ Sorted price d l ∧ Sorted price d r ∧
      (∀ a ∈ l, AVLTree.precedes d (price a) (price x)) ∧
      (∀ b ∈ r, AVLTree.precedes d (price x) (price b)) ∧
      (∀ a ∈ l, ∀ b ∈ r, AVLTree.precedes d (price a) (price b)) := by
  simp only [Sorted, List.pairwise_append, List.pairwise_cons, List.mem_cons, forall_eq_or_imp,
    imp_and, forall_and]
  tauto

/-- Sortedness only reads the prices of the listed nodes. Source: none. Kind: L -/
theorem Sorted.congr {price price' : Nat → UInt64} {d : Bool} {l : List Nat}
    (hs : Sorted price d l) (he : ∀ x ∈ l, price' x = price x) : Sorted price' d l :=
  List.Pairwise.imp_of_mem (fun ha hb h => by rwa [he _ ha, he _ hb]) hs

/-- A node that follows `l₁` and precedes `l₂` may be put between them.
Source: none: the binary-search-tree property
Kind: L -/
theorem sorted_insert {price : Nat → UInt64} {d : Bool} {l₁ l₂ : List Nat} {L : Nat}
    (hs : Sorted price d (l₁ ++ l₂)) (h₁ : ∀ a ∈ l₁, AVLTree.precedes d (price a) (price L))
    (h₂ : ∀ b ∈ l₂, AVLTree.precedes d (price L) (price b)) : Sorted price d (l₁ ++ L :: l₂) := by
  unfold Sorted at *
  obtain ⟨hs₁, hs₂, hs₁₂⟩ := List.pairwise_append.1 hs
  refine List.pairwise_append.2 ⟨hs₁, hs₂.cons h₂, fun a ha b hb => ?_⟩
  rcases List.mem_cons.1 hb with rfl | hb
  · exact h₁ a ha
  · exact hs₁₂ a ha b hb

/-- Dropping `L` and giving `L` the price of its successor `S`, in `S`'s place, keeps the
sequence sorted: the two-child case of `Remove`.
Source: none: the binary-search-tree property
Kind: L -/
theorem sorted_replace {price price' : Nat → UInt64} {d : Bool} {l₁ l₃ : List Nat} {L S : Nat}
    (hs : Sorted price d (l₁ ++ L :: S :: l₃)) (hL : ∀ x ∈ l₁ ++ l₃, price' x = price x)
    (hp : price' L = price S) : Sorted price' d (l₁ ++ L :: l₃) := by
  have hs' : Sorted price d (l₁ ++ S :: l₃) :=
    List.Pairwise.sublist ((List.sublist_cons_self L (S :: l₃)).append_left l₁) hs
  rw [sorted_node_iff] at hs' ⊢
  obtain ⟨h₁, h₃, h₁S, hS₃, h₁₃⟩ := hs'
  have e₁ : ∀ x ∈ l₁, price' x = price x := fun x hx => hL x (List.mem_append_left _ hx)
  have e₃ : ∀ x ∈ l₃, price' x = price x := fun x hx => hL x (List.mem_append_right _ hx)
  refine ⟨h₁.congr e₁, h₃.congr e₃, fun a ha => ?_, fun b hb => ?_, fun a ha b hb => ?_⟩
  · rw [e₁ a ha, hp]; exact h₁S a ha
  · rw [e₃ b hb, hp]; exact hS₃ b hb
  · rw [e₁ a ha, e₃ b hb]; exact h₁₃ a ha b hb

/-- On a sorted tree whose prices differ from `level`'s, the descent puts `level` between the
nodes that precede it and those that follow it.
Source: none: infrastructure
Kind: L -/
theorem insertIds_split {price : Nat → UInt64} {d : Bool} {level : Nat} :
    ∀ {t : Tree}, Sorted price d t.ids → (∀ x ∈ t.ids, price x ≠ price level) →
      ∃ l₁ l₂, t.ids = l₁ ++ l₂ ∧ t.insertIds price d level = l₁ ++ level :: l₂ ∧
        (∀ a ∈ l₁, AVLTree.precedes d (price a) (price level)) ∧
        (∀ b ∈ l₂, AVLTree.precedes d (price level) (price b))
  | nil, _, _ => ⟨[], [], rfl, rfl, by simp, by simp⟩
  | node l x b r, hs, hp => by
    rw [ids_node, sorted_node_iff] at hs
    obtain ⟨hl, hr, hlx, hxr, -⟩ := hs
    have hpx : price x ≠ price level := hp x (by simp)
    simp only [insertIds]
    split_ifs with hc
    · obtain ⟨l₁, l₂, e, e', h₁, h₂⟩ := insertIds_split hl (fun y hy => hp y (by simp [hy]))
      refine ⟨l₁, l₂ ++ x :: r.ids, by simp [e], by simp [e'], h₁, ?_⟩
      simp only [List.mem_append, List.mem_cons]
      rintro y (hy | rfl | hy)
      · exact h₂ y hy
      · exact hc
      · exact AVLTree.precedes_trans hc (hxr y hy)
    · have hxl := AVLTree.precedes_of_not_precedes hpx.symm hc
      obtain ⟨r₁, r₂, e, e', h₁, h₂⟩ := insertIds_split hr (fun y hy => hp y (by simp [hy]))
      refine ⟨l.ids ++ x :: r₁, r₂, by simp [e], by simp [e'], ?_, h₂⟩
      simp only [List.mem_append, List.mem_cons]
      rintro y (hy | rfl | hy)
      · exact AVLTree.precedes_trans (hlx y hy) hxl
      · exact hxl
      · exact h₁ y hy

/-! ## Removal -/

/-- `removeMin` detaches the head of the in-order sequence.
Source: `avltree.go` `(*AVLTree).Remove` (successor)
Kind: L -/
theorem removeMin_ids : ∀ {t t' : Tree} {s : Nat} {c : Bool},
    t.removeMin = some (t', s, c) → t.ids = s :: t'.ids
  | nil, _, _, _, h => by cases h
  | node nil _ _ _, _, _, _, h => by cases h; rfl
  | node (node ll lx lb lr) x b r, t', s, c, h => by
    unfold removeMin at h
    obtain ⟨⟨l', s', c'⟩, hl, h⟩ := Option.bind_eq_some.1 h
    have e := removeMin_ids hl
    dsimp only at h
    split_ifs at h
    · obtain ⟨⟨t'', c''⟩, hf, h⟩ := Option.bind_eq_some.1 h
      cases h
      rw [fixRemove_ids hf, ids_node, e, ids_node]; rfl
    · cases h
      rw [ids_node, e, ids_node]; rfl

/-- After a child's removal the parent is rebuilt, and `fixRemove` runs on it or not: either
way the in-order sequence is the rebuilt node's.
Source: none: infrastructure
Kind: L -/
theorem ids_of_fixRemove_or {t t' : Tree} {c c' : Bool} {s s' : Option Nat}
    (h : (if c' = true then do
            let __discr ← t.fixRemove
            match __discr with
            | (t'', c'') => some (t'', c'', s')
          else some (t, false, s')) = some (t', c, s)) :
    t'.ids = t.ids ∧ s = s' := by
  split_ifs at h
  · obtain ⟨⟨t'', c''⟩, hf, h⟩ := Option.bind_eq_some.1 h
    cases h; exact ⟨fixRemove_ids hf, rfl⟩
  · cases h; exact ⟨rfl, rfl⟩

/-- `removeAux L` deletes `L`, or keeps `L` in place and deletes its successor.
Source: `avltree.go` `(*AVLTree).Remove`
Kind: L -/
theorem removeAux_ids {L : Nat} : ∀ {t t' : Tree} {c : Bool} {s : Option Nat},
    t.removeAux L = some (t', c, s) →
    ∃ l₁ l₂, t.ids = l₁ ++ L :: l₂ ∧
      ((s = none ∧ t'.ids = l₁ ++ l₂) ∨
        (∃ S l₃, s = some S ∧ l₂ = S :: l₃ ∧ t'.ids = l₁ ++ L :: l₃))
  | nil, _, _, _, h => by cases h
  | node l x b r, t', c, s, h => by
    unfold removeAux at h
    split_ifs at h with hx hl
    · subst hx
      rcases l with _ | ⟨ll, lx, lb, lr⟩ <;> rcases r with _ | ⟨rl, rx, rb, rr⟩
      · cases h; exact ⟨[], [], rfl, .inl ⟨rfl, rfl⟩⟩
      · cases h; exact ⟨[], _, rfl, .inl ⟨rfl, rfl⟩⟩
      · cases h; exact ⟨_, [], rfl, .inl ⟨rfl, by simp⟩⟩
      · dsimp only at h
        obtain ⟨⟨r', S, c'⟩, hr, h⟩ := Option.bind_eq_some.1 h
        dsimp only at h
        obtain ⟨ht', rfl⟩ := ids_of_fixRemove_or h
        exact ⟨_, _, rfl, .inr ⟨S, r'.ids, rfl, removeMin_ids hr, ht'⟩⟩
    · obtain ⟨⟨l', c', s'⟩, hl', h⟩ := Option.bind_eq_some.1 h
      dsimp only at h
      obtain ⟨ht', rfl⟩ := ids_of_fixRemove_or h
      obtain ⟨l₁, l₂, e, hcase⟩ := removeAux_ids hl'
      refine ⟨l₁, l₂ ++ x :: r.ids, by simp [e], ?_⟩
      rcases hcase with ⟨rfl, e'⟩ | ⟨S, l₃, rfl, rfl, e'⟩
      · exact .inl ⟨rfl, by simp [ht', e']⟩
      · exact .inr ⟨S, l₃ ++ x :: r.ids, rfl, rfl, by simp [ht', e']⟩
    · obtain ⟨⟨r', c', s'⟩, hr', h⟩ := Option.bind_eq_some.1 h
      dsimp only at h
      obtain ⟨ht', rfl⟩ := ids_of_fixRemove_or h
      obtain ⟨r₁, r₂, e, hcase⟩ := removeAux_ids hr'
      refine ⟨l.ids ++ x :: r₁, r₂, by simp [e], ?_⟩
      rcases hcase with ⟨rfl, e'⟩ | ⟨S, l₃, rfl, rfl, e'⟩
      · exact .inl ⟨rfl, by simp [ht', e']⟩
      · exact .inr ⟨S, l₃, rfl, rfl, by simp [ht', e']⟩

/-! ## First and Find -/

/-- The leftmost node heads the in-order sequence.
Source: `avltree.go` `(*AVLTree).First`
Kind: L -/
theorem first_eq_head : ∀ t : Tree, t.first = t.ids.head?
  | nil => rfl
  | node nil _ _ _ => rfl
  | node (node ll lx lb lr) x b r => by
    rw [show (node (node ll lx lb lr) x b r).first = (node ll lx lb lr).first from rfl,
      first_eq_head]
    simp

/-- In a sorted tree, `find p` returns exactly the node of price `p`.
Source: `avltree.go` `(*AVLTree).Find`
Kind: L -/
theorem find_eq_some_iff {price : Nat → UInt64} {d : Bool} {p : UInt64} :
    ∀ {t : Tree}, Sorted price d t.ids →
      ∀ {y : Nat}, t.find price d p = some y ↔ y ∈ t.ids ∧ price y = p
  | nil, _, _ => by simp [find]
  | node l x b r, hs, y => by
    rw [ids_node, sorted_node_iff] at hs
    obtain ⟨hl, hr, hlx, hxr, -⟩ := hs
    have nl : ∀ z ∈ l.ids, price z ≠ price x := fun z hz e =>
      AVLTree.precedes_irrefl (price x) (e ▸ hlx z hz)
    have nr : ∀ z ∈ r.ids, price z ≠ price x := fun z hz e =>
      AVLTree.precedes_irrefl (price x) (e ▸ hxr z hz)
    simp only [find, ids_node, List.mem_append, List.mem_cons]
    split_ifs with h₁ h₂
    · subst h₁
      constructor
      · rintro ⟨⟩; exact ⟨.inr (.inl rfl), rfl⟩
      · rintro ⟨hy | rfl | hy, e⟩
        · exact absurd e (nl y hy)
        · rfl
        · exact absurd e (nr y hy)
    · rw [find_eq_some_iff hl]
      constructor
      · rintro ⟨hy, e⟩; exact ⟨.inl hy, e⟩
      · rintro ⟨hy | rfl | hy, e⟩
        · exact ⟨hy, e⟩
        · exact absurd e.symm h₁
        · exact absurd (e ▸ hxr y hy) (AVLTree.precedes_asymm h₂)
    · rw [find_eq_some_iff hr]
      have hxp := AVLTree.precedes_of_not_precedes h₁ h₂
      constructor
      · rintro ⟨hy, e⟩; exact ⟨.inr (.inr hy), e⟩
      · rintro ⟨hy | rfl | hy, e⟩
        · exact absurd (e ▸ hlx y hy) (AVLTree.precedes_asymm hxp)
        · exact absurd e.symm h₁
        · exact ⟨hy, e⟩

end Tree

end GoTrader.Matching
