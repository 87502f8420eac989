import GoTrader.Matching.AVLPointerShape

/-!
# Rotations over pointers

`rotateLeft`, `rotateRight` and `rebalance` of `AVLPointer.lean` do to the pointer fields what
`Tree.rotateLeft`, `Tree.rotateRight` and `Tree.rebalance` do to the tree:

* `PTree.rotateLeft_spec`, `PTree.rotateRight_spec` — the fields each rotation writes: the node,
  the pivot, the root of the subtree that changes sides (its `Parent`), and the link from the
  node's parent (`replaceChild`);
* `Focus.rotateLeft`, `Focus.rotateRight`, `Focus.rebalance` — at a subtree anywhere in the
  tree, the pointers then hold the rotated tree in the same place, with every `Parent` right.
-/

namespace GoTrader.Matching

namespace PTree

variable (t : PTree)

theorem reparent_links (c p : Option Nat) (w : Nat) :
    (t.reparent c p).links w =
      if c = some w then { t.links w with parent := p } else t.links w := by
  cases c with
  | none => rfl
  | some c =>
    simp only [reparent, setParent_links, Option.some.injEq]
    by_cases h : w = c
    · subst h; simp
    · rw [if_neg h, if_neg (Ne.symm h)]

@[simp] theorem reparent_root (c p : Option Nat) : (t.reparent c p).root = t.root := by
  cases c <;> rfl
@[simp] theorem reparent_size (c p : Option Nat) : (t.reparent c p).size = t.size := by
  cases c <;> rfl
@[simp] theorem reparent_descending (c p : Option Nat) :
    (t.reparent c p).descending = t.descending := by
  cases c <;> rfl

theorem replaceChild_links_of_ne {parent : Option Nat} {w : Nat} (old : Nat) (new : Option Nat)
    (h : parent ≠ some w) : (t.replaceChild parent old new).links w = t.links w := by
  cases parent with
  | none => rfl
  | some p =>
    have hp : w ≠ p := fun e => h (e ▸ rfl)
    simp only [replaceChild]
    split_ifs
    · rw [setLeft_links, if_neg hp]
    · rw [setRight_links, if_neg hp]

/-- `replaceChild` reads only the parent's fields. Source: none. Kind: L -/
theorem replaceChild_congr {t t' : PTree} {parent : Option Nat} (old : Nat) (new : Option Nat)
    (hp : ∀ p, parent = some p → t'.links p = t.links p) {w : Nat} (hw : t'.links w = t.links w) :
    (t'.replaceChild parent old new).links w = (t.replaceChild parent old new).links w := by
  cases parent with
  | none => exact hw
  | some p =>
    simp only [replaceChild, hp p rfl]
    split_ifs
    · simp only [setLeft_links, hp p rfl, hw]
    · simp only [setRight_links, hp p rfl, hw]

theorem replaceChild_root_congr {t t' : PTree} {parent : Option Nat} (old : Nat) (new : Option Nat)
    (hr : t'.root = t.root) (hp : ∀ p, parent = some p → t'.links p = t.links p) :
    (t'.replaceChild parent old new).root = (t.replaceChild parent old new).root := by
  cases parent with
  | none => rfl
  | some p =>
    simp only [replaceChild, hp p rfl]
    split_ifs <;> exact hr

@[simp] theorem replaceChild_size (parent : Option Nat) (old : Nat) (new : Option Nat) :
    (t.replaceChild parent old new).size = t.size := by
  cases parent with
  | none => rfl
  | some p => simp only [replaceChild]; split_ifs <;> rfl
@[simp] theorem replaceChild_descending (parent : Option Nat) (old : Nat) (new : Option Nat) :
    (t.replaceChild parent old new).descending = t.descending := by
  cases parent with
  | none => rfl
  | some p => simp only [replaceChild]; split_ifs <;> rfl

/-- What `rotateLeft` writes: the node, the pivot, the `Parent` of the pivot's left subtree, and
the link from the node's parent.
Source: `avltree.go` `(*AVLTree).rotateLeft`
Kind: L -/
theorem rotateLeft_spec {x y : Nat} {a b c up : Option Nat} {bn bp : Int}
    (hx : t.links x = ⟨a, some y, up, bn⟩) (hy : t.links y = ⟨b, c, some x, bp⟩)
    (hxy : x ≠ y) (hbx : b ≠ some x) (hby : b ≠ some y) (hux : up ≠ some x)
    (huy : up ≠ some y) (hub : ∀ z, b = some z → up ≠ some z) :
    ∃ t', t.rotateLeft x = some (t', y) ∧
      t'.links x = ⟨a, b, some y, bn - 1 - max 0 bp⟩ ∧
      t'.links y = ⟨some x, c, up, bp - 1 + min 0 (bn - 1 - max 0 bp)⟩ ∧
      (∀ z, b = some z → t'.links z = { t.links z with parent := some x }) ∧
      (∀ w, w ≠ x → w ≠ y → b ≠ some w →
        t'.links w = (t.replaceChild up x (some y)).links w) ∧
      t'.root = (t.replaceChild up x (some y)).root ∧ t'.size = t.size ∧
      t'.descending = t.descending := by
  have hyx := Ne.symm hxy
  -- the writes before the parent is relinked touch `x`, `y` and `b`'s root only
  have h₅ : ∀ w, w ≠ x → w ≠ y → b ≠ some w →
      ((((((t.setRight x b).reparent b (some x)).setLeft y (some x)).setParent x
        (some y)).setParent y up)).links w = t.links w := fun w h₁ h₂ h₃ => by
    simp only [setParent_links, setLeft_links, reparent_links, setRight_links, if_neg h₁,
      if_neg h₂, if_neg h₃]
  have hp : ∀ p, up = some p → ((((((t.setRight x b).reparent b (some x)).setLeft y
      (some x)).setParent x (some y)).setParent y up)).links p = t.links p := by
    rintro p rfl
    exact h₅ p (fun e => hux (e ▸ rfl)) (fun e => huy (e ▸ rfl)) fun e => hub p e rfl
  refine ⟨_, by simp only [rotateLeft, hx, hy, setRight_links, if_pos, Option.bind_eq_bind,
    Option.some_bind]; rfl, ?_, ?_, fun z hz => ?_, fun w h₁ h₂ h₃ => ?_, ?_, ?_, ?_⟩
  · simp only [setBalance_links, if_neg hxy, if_pos, replaceChild_links_of_ne _ _ _ hux,
      replaceChild_links_of_ne _ _ _ huy, setParent_links, if_neg hyx, setLeft_links,
      reparent_links, hbx, hby, setRight_links, hx, hy, if_false]
  · simp only [setBalance_links, if_neg hxy, if_pos, replaceChild_links_of_ne _ _ _ hux,
      replaceChild_links_of_ne _ _ _ huy, setParent_links, if_neg hyx, setLeft_links,
      reparent_links, hbx, hby, setRight_links, hx, hy, if_false]
  · subst hz
    have hzx : z ≠ x := fun e => hbx (e ▸ rfl)
    have hzy : z ≠ y := fun e => hby (e ▸ rfl)
    simp only [setBalance_links, if_neg hzx, if_neg hzy,
      replaceChild_links_of_ne _ _ _ (hub z rfl), setParent_links, setLeft_links,
      reparent_links, setRight_links, if_true]
  · simp only [setBalance_links, if_neg h₁, if_neg h₂]
    exact replaceChild_congr _ _ hp (h₅ w h₁ h₂ h₃)
  · simp only [setBalance_root]
    exact replaceChild_root_congr _ _ (by simp) hp
  · simp
  · simp

/-- What `rotateRight` writes: the mirror image of `rotateLeft_spec`.
Source: `avltree.go` `(*AVLTree).rotateRight`
Kind: L -/
theorem rotateRight_spec {x y : Nat} {a b c up : Option Nat} {bn bp : Int}
    (hx : t.links x = ⟨some y, c, up, bn⟩) (hy : t.links y = ⟨a, b, some x, bp⟩)
    (hxy : x ≠ y) (hbx : b ≠ some x) (hby : b ≠ some y) (hux : up ≠ some x)
    (huy : up ≠ some y) (hub : ∀ z, b = some z → up ≠ some z) :
    ∃ t', t.rotateRight x = some (t', y) ∧
      t'.links x = ⟨b, c, some y, bn + 1 - min 0 bp⟩ ∧
      t'.links y = ⟨a, some x, up, bp + 1 + max 0 (bn + 1 - min 0 bp)⟩ ∧
      (∀ z, b = some z → t'.links z = { t.links z with parent := some x }) ∧
      (∀ w, w ≠ x → w ≠ y → b ≠ some w →
        t'.links w = (t.replaceChild up x (some y)).links w) ∧
      t'.root = (t.replaceChild up x (some y)).root ∧ t'.size = t.size ∧
      t'.descending = t.descending := by
  have hyx := Ne.symm hxy
  have h₅ : ∀ w, w ≠ x → w ≠ y → b ≠ some w →
      ((((((t.setLeft x b).reparent b (some x)).setRight y (some x)).setParent x
        (some y)).setParent y up)).links w = t.links w := fun w h₁ h₂ h₃ => by
    simp only [setParent_links, setRight_links, reparent_links, setLeft_links, if_neg h₁,
      if_neg h₂, if_neg h₃]
  have hp : ∀ p, up = some p → ((((((t.setLeft x b).reparent b (some x)).setRight y
      (some x)).setParent x (some y)).setParent y up)).links p = t.links p := by
    rintro p rfl
    exact h₅ p (fun e => hux (e ▸ rfl)) (fun e => huy (e ▸ rfl)) fun e => hub p e rfl
  refine ⟨_, by simp only [rotateRight, hx, hy, setLeft_links, if_pos, Option.bind_eq_bind,
    Option.some_bind]; rfl, ?_, ?_, fun z hz => ?_, fun w h₁ h₂ h₃ => ?_, ?_, ?_, ?_⟩
  · simp only [setBalance_links, if_neg hxy, if_pos, replaceChild_links_of_ne _ _ _ hux,
      replaceChild_links_of_ne _ _ _ huy, setParent_links, if_neg hyx, setRight_links,
      reparent_links, hbx, hby, setLeft_links, hx, hy, if_false]
  · simp only [setBalance_links, if_neg hxy, if_pos, replaceChild_links_of_ne _ _ _ hux,
      replaceChild_links_of_ne _ _ _ huy, setParent_links, if_neg hyx, setRight_links,
      reparent_links, hbx, hby, setLeft_links, hx, hy, if_false]
  · subst hz
    have hzx : z ≠ x := fun e => hbx (e ▸ rfl)
    have hzy : z ≠ y := fun e => hby (e ▸ rfl)
    simp only [setBalance_links, if_neg hzx, if_neg hzy,
      replaceChild_links_of_ne _ _ _ (hub z rfl), setParent_links, setRight_links,
      reparent_links, setLeft_links, if_true]
  · simp only [setBalance_links, if_neg h₁, if_neg h₂]
    exact replaceChild_congr _ _ hp (h₅ w h₁ h₂ h₃)
  · simp only [setBalance_root]
    exact replaceChild_root_congr _ _ (by simp) hp
  · simp
  · simp

end PTree

/-! ## Rotations at a subtree -/

/-- The parent's link to the subtree at `x` relinked to `new`, after writes that leave the path's
nodes alone. Source: `avltree.go` (the `parent.Left == node` blocks). Kind: L -/
theorem CtxShape.relink {t t' : PTree} {ctx : List Frame} {x : Nat} {new : Option Nat}
    (hC : CtxShape t.links t.root (some x) ctx) (hx : x ∉ ctxIds ctx) (hnd : (ctxIds ctx).Nodup)
    (h' : ∀ w ∈ ctxIds ctx, t'.links w = (t.replaceChild (above ctx) x new).links w)
    (hr' : t'.root = (t.replaceChild (above ctx) x new).root) :
    CtxShape t'.links t'.root new ctx := by
  rw [hr']
  exact (hC.replaceChild hx hnd).frame h'

/-- `rotateLeft` at the root of a subtree anywhere in the tree holds `Tree.rotateLeft` of it in
the same place.
Source: `avltree.go` `(*AVLTree).rotateLeft`
Kind: L -/
theorem Focus.rotateLeft {t : PTree} {ctx : List Frame} {T T' : Tree} (hF : Focus t ctx T)
    (hT : T.rotateLeft = some T') :
    ∃ t' x y, T.ptr = some x ∧ T'.ptr = some y ∧ t.rotateLeft x = some (t', y) ∧
      Focus t' ctx T' ∧ t'.size = t.size ∧ t'.descending = t.descending := by
  unfold Tree.rotateLeft at hT
  split at hT
  case h_2 => cases hT
  rename_i a x bn b y bp c
  cases hT
  have hS := hF.shape
  simp only [shape_node, Tree.ptr_node] at hS
  obtain ⟨hx, ha, hy, hb, hc⟩ := hS
  obtain ⟨-, hR, hxa, hxR, haR⟩ := Tree.nodup_ids_node.1 hF.nodup_ids
  obtain ⟨hbnd, -, hyb, hyc, hbc⟩ := Tree.nodup_ids_node.1 hR
  simp only [Tree.mem_ids_node, not_or] at hxR haR
  have out : ∀ {w}, w ∈ a.ids ∨ w = x ∨ w ∈ b.ids ∨ w = y ∨ w ∈ c.ids → w ∉ ctxIds ctx :=
    fun hw => hF.not_mem_ctx (by simpa only [Tree.mem_ids_node] using hw)
  have hub : ∀ z, b.ptr = some z → above ctx ≠ some z := fun z hz =>
    above_ne_some (out (.inr (.inr (.inl (Tree.mem_ids_of_ptr hz)))))
  obtain ⟨t', e, hx', hy', hz', hw', hr', hsz, hd⟩ := t.rotateLeft_spec hx hy hxR.2.1
    (Tree.ptr_ne_some_of_not_mem hxR.1) (Tree.ptr_ne_some_of_not_mem hyb)
    (above_ne_some (out (.inr (.inl rfl)))) (above_ne_some (out (.inr (.inr (.inr (.inl rfl))))))
    hub
  -- a node of `a` or `c` keeps its fields
  have keep : ∀ w, w ∉ ctxIds ctx → w ≠ x → w ≠ y → w ∉ b.ids → t'.links w = t.links w :=
    fun w hc hwx hwy hwb => (hw' w hwx hwy (Tree.ptr_ne_some_of_not_mem hwb)).trans
      (t.replaceChild_links_of_ne _ _ (above_ne_some hc))
  refine ⟨t', x, y, rfl, rfl, e, ⟨?_, ?_, ?_⟩, hsz, hd⟩
  · refine hF.path.relink (out (.inr (.inl rfl))) hF.nodup_ctx (fun w hw => hw' w ?_ ?_ ?_) hr'
    · rintro rfl; exact out (.inr (.inl rfl)) hw
    · rintro rfl; exact out (.inr (.inr (.inr (.inl rfl)))) hw
    · exact fun hz => out (.inr (.inr (.inl (Tree.mem_ids_of_ptr hz)))) hw
  · simp only [shape_node, Tree.ptr_node]
    refine ⟨hy', ⟨hx', ha.frame fun w hw => keep w (out (.inl hw)) ?_ ?_ ?_,
      hb.reparent hbnd (fun z hz => hz' z hz) fun w hw hne => ?_⟩,
      hc.frame fun w hw => keep w (out (.inr (.inr (.inr (.inr hw))))) ?_ ?_ ?_⟩
    · rintro rfl; exact hxa hw
    · exact (haR w hw).2.1
    · exact (haR w hw).1
    · exact (hw' w (by rintro rfl; exact hxR.1 hw) (by rintro rfl; exact hyb hw) hne).trans
        (t.replaceChild_links_of_ne _ _ (above_ne_some (out (.inr (.inr (.inl hw))))))
    · rintro rfl; exact hxR.2.2 hw
    · rintro rfl; exact hyc hw
    · exact fun hwb => hbc w hwb hw
  · simpa only [Tree.ids, List.append_assoc, List.cons_append] using hF.nodup

/-- `rotateRight` at the root of a subtree anywhere in the tree holds `Tree.rotateRight` of it
in the same place.
Source: `avltree.go` `(*AVLTree).rotateRight`
Kind: L -/
theorem Focus.rotateRight {t : PTree} {ctx : List Frame} {T T' : Tree} (hF : Focus t ctx T)
    (hT : T.rotateRight = some T') :
    ∃ t' x y, T.ptr = some x ∧ T'.ptr = some y ∧ t.rotateRight x = some (t', y) ∧
      Focus t' ctx T' ∧ t'.size = t.size ∧ t'.descending = t.descending := by
  unfold Tree.rotateRight at hT
  split at hT
  case h_2 => cases hT
  rename_i a y bp b x bn c
  cases hT
  have hS := hF.shape
  simp only [shape_node, Tree.ptr_node] at hS
  obtain ⟨hx, ⟨hy, ha, hb⟩, hc⟩ := hS
  obtain ⟨hL, -, hxL, hxc, hLc⟩ := Tree.nodup_ids_node.1 hF.nodup_ids
  obtain ⟨-, hbnd, hya, hyb, hab⟩ := Tree.nodup_ids_node.1 hL
  simp only [Tree.mem_ids_node, not_or] at hxL hLc
  have out : ∀ {w}, (w ∈ a.ids ∨ w = y ∨ w ∈ b.ids) ∨ w = x ∨ w ∈ c.ids → w ∉ ctxIds ctx :=
    fun hw => hF.not_mem_ctx (by simpa only [Tree.mem_ids_node] using hw)
  have hub : ∀ z, b.ptr = some z → above ctx ≠ some z := fun z hz =>
    above_ne_some (out (.inl (.inr (.inr (Tree.mem_ids_of_ptr hz)))))
  obtain ⟨t', e, hx', hy', hz', hw', hr', hsz, hd⟩ := t.rotateRight_spec hx hy
    hxL.2.1 (Tree.ptr_ne_some_of_not_mem hxL.2.2)
    (Tree.ptr_ne_some_of_not_mem hyb) (above_ne_some (out (.inr (.inl rfl))))
    (above_ne_some (out (.inl (.inr (.inl rfl))))) hub
  have keep : ∀ w, w ∉ ctxIds ctx → w ≠ x → w ≠ y → w ∉ b.ids → t'.links w = t.links w :=
    fun w hc hwx hwy hwb => (hw' w hwx hwy (Tree.ptr_ne_some_of_not_mem hwb)).trans
      (t.replaceChild_links_of_ne _ _ (above_ne_some hc))
  refine ⟨t', x, y, rfl, rfl, e, ⟨?_, ?_, ?_⟩, hsz, hd⟩
  · refine hF.path.relink (out (.inr (.inl rfl))) hF.nodup_ctx (fun w hw => hw' w ?_ ?_ ?_) hr'
    · rintro rfl; exact out (.inr (.inl rfl)) hw
    · rintro rfl; exact out (.inl (.inr (.inl rfl))) hw
    · exact fun hz => out (.inl (.inr (.inr (Tree.mem_ids_of_ptr hz)))) hw
  · simp only [shape_node, Tree.ptr_node]
    refine ⟨hy', ha.frame fun w hw => keep w (out (.inl (.inl hw))) ?_ ?_ ?_,
      hx', hb.reparent hbnd (fun z hz => hz' z hz) fun w hw hne => ?_,
      hc.frame fun w hw => keep w (out (.inr (.inr hw))) ?_ ?_ ?_⟩
    · rintro rfl; exact hxL.1 hw
    · rintro rfl; exact hya hw
    · exact fun hwb => hab w hw hwb
    · exact (hw' w (by rintro rfl; exact hxL.2.2 hw) (by rintro rfl; exact hyb hw) hne).trans
        (t.replaceChild_links_of_ne _ _ (above_ne_some (out (.inl (.inr (.inr hw))))))
    · rintro rfl; exact hxc hw
    · exact fun e => hLc y (.inr (.inl rfl)) (e ▸ hw)
    · exact fun hwb => hLc w (.inr (.inr hwb)) hw
  · simpa only [Tree.ids, List.append_assoc, List.cons_append] using hF.nodup

/-- `rebalance` at the root of a subtree anywhere in the tree holds `Tree.rebalance` of it in the
same place, and returns the subtree's new root.
Source: `avltree.go` `(*AVLTree).rebalance`
Kind: L -/
theorem Focus.rebalance {t : PTree} {ctx : List Frame} {T T' : Tree} {x : Nat}
    (hF : Focus t ctx T) (hx : T.ptr = some x) (hT : T.rebalance = some T') :
    ∃ t' y, T'.ptr = some y ∧ t.rebalance x = some (t', y) ∧ Focus t' ctx T' ∧
      t'.size = t.size ∧ t'.descending = t.descending := by
  cases T with
  | nil => cases hx
  | node l x' b r =>
    cases hx
    have hS := hF.shape
    simp only [shape_node] at hS
    simp only [Tree.rebalance] at hT
    simp only [PTree.rebalance, hS.1]
    by_cases h₁ : b = -2
    · subst h₁
      rw [if_pos rfl] at hT ⊢
      cases l with
      | nil => cases hT
      | node ll lx lb lr =>
        simp only [Tree.ptr_node, Option.bind_eq_bind, Option.some_bind, hS.2.1.1] at hT ⊢
        split_ifs at hT ⊢ with h₂
        · obtain ⟨t', _, y, hx', hy, e, hF', hsz, hd⟩ := hF.rotateRight hT
          cases hx'
          exact ⟨t', y, hy, e, hF', hsz, hd⟩
        · obtain ⟨l', hl', hT⟩ := Option.bind_eq_some.1 hT
          have hF₀ : Focus t (.left x (-2) r :: ctx) (.node ll lx lb lr) := focus_cons.2 hF
          obtain ⟨t₁, _, _, hx₁, -, e₁, hF₁, hsz₁, hd₁⟩ := hF₀.rotateLeft hl'
          cases hx₁
          obtain ⟨t₂, _, y, hx₂, hy, e₂, hF₂, hsz₂, hd₂⟩ := (focus_cons.1 hF₁).rotateRight hT
          cases hx₂
          refine ⟨t₂, y, hy, ?_, hF₂, hsz₂.trans hsz₁, hd₂.trans hd₁⟩
          simp only [e₁, Option.some_bind, e₂]
    · rw [if_neg h₁] at hT ⊢
      by_cases h₃ : b = 2
      · subst h₃
        rw [if_pos rfl] at hT ⊢
        cases r with
        | nil => cases hT
        | node rl rx rb rr =>
          simp only [Tree.ptr_node, Option.bind_eq_bind, Option.some_bind, hS.2.2.1] at hT ⊢
          split_ifs at hT ⊢ with h₂
          · obtain ⟨t', _, y, hx', hy, e, hF', hsz, hd⟩ := hF.rotateLeft hT
            cases hx'
            exact ⟨t', y, hy, e, hF', hsz, hd⟩
          · obtain ⟨r', hr', hT⟩ := Option.bind_eq_some.1 hT
            have hF₀ : Focus t (.right l x 2 :: ctx) (.node rl rx rb rr) := focus_cons.2 hF
            obtain ⟨t₁, _, _, hx₁, -, e₁, hF₁, hsz₁, hd₁⟩ := hF₀.rotateRight hr'
            cases hx₁
            obtain ⟨t₂, _, y, hx₂, hy, e₂, hF₂, hsz₂, hd₂⟩ := (focus_cons.1 hF₁).rotateLeft hT
            cases hx₂
            refine ⟨t₂, y, hy, ?_, hF₂, hsz₂.trans hsz₁, hd₂.trans hd₁⟩
            simp only [e₁, Option.some_bind, e₂]
      · rw [if_neg h₃] at hT ⊢
        cases hT
        exact ⟨t, x, rfl, rfl, hF, rfl, rfl⟩

end GoTrader.Matching
