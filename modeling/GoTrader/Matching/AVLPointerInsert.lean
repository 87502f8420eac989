import GoTrader.Matching.AVLPointerRotate

/-!
# `Insert` over pointers

`PTree.insert` — the descent, the attachment of the new node and `rebalanceInsert`'s walk up
the `Parent` chain — holds `Tree.insertAux`'s result:

* `upInsert` — the functional walk back up a path, one `fixInsert` per node while the subtree
  grew; `insertAux_plug` — `insertAux` of a tree is its descent to a nil child followed by that
  walk;
* `Focus.insertDescent` — the pointer descent stops at the same nil child;
  `Focus.attach` — linking the new node there;
* `Focus.rebalanceInsertBody` — one iteration of `rebalanceInsert`'s loop does one step of the
  walk; `Focus.rebalanceInsert` — so the loop does the walk, with every `Parent` and `Balance`
  right after it;
* `Focus.insert` — the whole of `Insert`, with enough fuel for its two loops.
-/

namespace GoTrader.Matching

namespace Frame

/-- Source: none. Kind: D -/
def balance : Frame → Int
  | left _ b _ => b
  | right _ _ b => b

/-- The frame after `rebalanceInsert`'s `parent.Balance--` (hole on the left) or
`parent.Balance++`.
Source: `avltree.go` `(*AVLTree).rebalanceInsert`
Kind: D -/
def grow (f : Frame) : Frame :=
  f.withBalance (if f.isLeft then f.balance - 1 else f.balance + 1)

/-- `Insert`'s descent through the frame's node goes toward the hole.
Source: `avltree.go` `(*AVLTree).Insert` (`cmp < 0` goes left)
Kind: D -/
def Toward (price : Nat → UInt64) (d : Bool) (level : Nat) : Frame → Prop
  | left x _ _ => AVLTree.compare d (price level) (price x) < 0
  | right _ x _ => ¬ AVLTree.compare d (price level) (price x) < 0

theorem links_balance (f : Frame) (hole up : Option Nat) :
    (f.links hole up).balance = f.balance := by
  cases f <;> rfl

end Frame

/-! ## The walk up, functionally -/

/-- `insertAux`'s way back up a path: one `fixInsert` per node while the subtree grew.
Source: `avltree.go` `(*AVLTree).rebalanceInsert`
Kind: D -/
def upInsert : List Frame → Tree × Bool → Option (Tree × Bool)
  | [], r => some r
  | f :: fs, (t, grew) =>
    (if grew then (f.grow.fill t).fixInsert else some (f.fill t, false)).bind (upInsert fs)

theorem upInsert_false : ∀ (fs : List Frame) (t : Tree),
    upInsert fs (t, false) = some (plug fs t, false)
  | [], _ => rfl
  | _ :: fs, _ => upInsert_false fs _

/-- `insertAux` descends along a path whose frames lie toward the new node's price, then walks
back up it.
Source: `avltree.go` `(*AVLTree).Insert`
Kind: L -/
theorem insertAux_plug {price : Nat → UInt64} {d : Bool} {level : Nat} :
    ∀ {ctx : List Frame}, (∀ f ∈ ctx, f.Toward price d level) → ∀ s : Tree,
      (plug ctx s).insertAux price d level = (s.insertAux price d level).bind (upInsert ctx)
  | [], _, s => by simp only [plug, upInsert, Option.bind_some]
  | f :: fs, h, s => by
    rw [plug, insertAux_plug (fun g hg => h g (.tail _ hg))]
    have hf := h f (.head _)
    cases f with
    | left x b r =>
      simp only [Frame.Toward] at hf
      simp only [Frame.fill, Tree.insertAux, if_pos hf, Option.bind_eq_bind, Option.bind_assoc]
      exact congrArg (Option.bind _) (funext fun ⟨t', g⟩ => by cases g <;> rfl)
    | right l x b =>
      simp only [Frame.Toward] at hf
      simp only [Frame.fill, Tree.insertAux, if_neg hf, Option.bind_eq_bind, Option.bind_assoc]
      exact congrArg (Option.bind _) (funext fun ⟨t', g⟩ => by cases g <;> rfl)

/-! ## The descent and the attachment -/

/-- What the descent's last iteration writes: `parent.Left = level` (or `Right`) and
`level.Parent = parent`.
Source: `avltree.go` `(*AVLTree).Insert`
Kind: D -/
def Frame.attach (f : Frame) (t : PTree) (level : Nat) : PTree :=
  if f.isLeft then (t.setLeft f.id (some level)).setParent level (some f.id)
  else (t.setRight f.id (some level)).setParent level (some f.id)

theorem length_le_plug (ctx : List Frame) (s : Tree) : ctx.length ≤ (plug ctx s).ids.length := by
  rw [(plug_ids_perm ctx s).length_eq, List.length_append]
  have := length_le_ctxIds ctx
  omega

/-- `Insert`'s descent from the root stops at a nil child below a path whose frames lie toward
the new price, and links the new node there.
Source: `avltree.go` `(*AVLTree).Insert`
Kind: L -/
theorem Focus.insertDescent {t : PTree} {T : Tree} (price : Nat → UInt64) (level : Nat)
    {root : Nat} (hF : Focus t [] T) (hroot : T.ptr = some root) {fuel : Nat}
    (hfuel : T.ids.length < fuel) :
    ∃ f fs, T = plug (f :: fs) .nil ∧ (∀ g ∈ f :: fs, g.Toward price t.descending level) ∧
      Focus t (f :: fs) .nil ∧
      loop (PTree.insertBody price level) fuel (t, root) =
        some (f.attach t level, f.id, f.isLeft) := by
  let I : Nat → PTree × Nat → Prop := fun k s => t = s.1 ∧ ∃ ctx S, Focus t ctx S ∧
    S.ptr = some s.2 ∧ plug ctx S = T ∧ (∀ g ∈ ctx, g.Toward price t.descending level) ∧
    S.ids.length ≤ k
  let Q : PTree × Nat × Bool → Prop := fun r => ∃ f fs, T = plug (f :: fs) .nil ∧
    (∀ g ∈ f :: fs, g.Toward price t.descending level) ∧ Focus t (f :: fs) .nil ∧
    r = (f.attach t level, f.id, f.isLeft)
  have step : ∀ k s, I k s → (∃ s', PTree.insertBody price level s = some (.inl s') ∧
      ∃ k' < k, I k' s') ∨ ∃ a, PTree.insertBody price level s = some (.inr a) ∧ Q a := by
    rintro k ⟨t₀, p⟩ ⟨h₀, ctx, S, hS, hp, rfl, hto, hk⟩
    dsimp only at h₀ hp
    subst h₀
    cases S with
    | nil => cases hp
    | node l x b r =>
      cases hp
      have hx : t.links p = ⟨l.ptr, r.ptr, above ctx, b⟩ := hS.shape.1
      simp only [Tree.ids, List.length_append, List.length_cons] at hk
      by_cases hc : AVLTree.compare t.descending (price level) (price p) < 0
      · have hto' : ∀ g ∈ Frame.left p b r :: ctx, g.Toward price t.descending level :=
          fun g hg => (List.mem_cons.1 hg).elim (fun e => e ▸ hc) (hto g)
        have hS' : Focus t (.left p b r :: ctx) l := focus_cons.2 hS
        cases l with
        | nil =>
          refine .inr ⟨_, by simp only [PTree.insertBody, if_pos hc, hx, Tree.ptr_nil]; rfl, ?_⟩
          exact ⟨.left p b r, ctx, rfl, hto', hS', by simp [Frame.attach, Frame.isLeft, Frame.id]⟩
        | node ll lx lb lr =>
          refine .inl ⟨_, by simp only [PTree.insertBody, if_pos hc, hx, Tree.ptr_node]; rfl, ?_⟩
          exact ⟨(Tree.node ll lx lb lr).ids.length, by omega, rfl, _, _, hS', rfl, rfl, hto',
            le_rfl⟩
      · have hto' : ∀ g ∈ Frame.right l p b :: ctx, g.Toward price t.descending level :=
          fun g hg => (List.mem_cons.1 hg).elim (fun e => e ▸ hc) (hto g)
        have hS' : Focus t (.right l p b :: ctx) r := focus_cons.2 hS
        cases r with
        | nil =>
          refine .inr ⟨_, by simp only [PTree.insertBody, if_neg hc, hx, Tree.ptr_nil]; rfl, ?_⟩
          exact ⟨.right l p b, ctx, rfl, hto', hS', by simp [Frame.attach, Frame.isLeft, Frame.id]⟩
        | node rl rx rb rr =>
          refine .inl ⟨_, by simp only [PTree.insertBody, if_neg hc, hx, Tree.ptr_node]; rfl, ?_⟩
          exact ⟨(Tree.node rl rx rb rr).ids.length, by omega, rfl, _, _, hS', rfl, rfl, hto',
            le_rfl⟩
  obtain ⟨_, e, f, fs, hT, hto, hfs, rfl⟩ :=
    loop_of_rank (I := I) (Q := Q) (k := T.ids.length) (s := (t, root)) step
      ⟨rfl, [], T, hF, hroot, rfl, nofun, le_rfl⟩ hfuel
  exact ⟨f, fs, hT, hto, hfs, e⟩

/-- Linking a fresh node, whose fields are a `NewLevelNode`'s, at a nil child.
Source: `avltree.go` `(*AVLTree).Insert`
Kind: L -/
theorem Focus.attach {t : PTree} {f : Frame} {fs : List Frame} {level : Nat}
    (hF : Focus t (f :: fs) .nil) (hlev : level ∉ ctxIds (f :: fs))
    (hdef : t.links level = default) :
    Focus (f.attach t level) (f :: fs) (.node .nil level 0 .nil) := by
  obtain ⟨⟨hf, hs, hc⟩, -, hnd⟩ := hF
  have hnd' : (f.id :: (f.sib.ids ++ ctxIds fs)).Nodup := by
    simpa only [ctxIds, Frame.ids, Tree.ids, List.append_nil, List.cons_append] using hnd
  have hid : f.id ∉ f.sib.ids ++ ctxIds fs := (List.nodup_cons.1 hnd').1
  have hlev' : level ∉ f.sib.ids ++ ctxIds fs := fun h => hlev (by
    simpa only [ctxIds, Frame.ids, List.cons_append] using List.mem_cons_of_mem _ h)
  have hne : level ≠ f.id := fun e => hlev (by simp [ctxIds, Frame.ids, e])
  -- the attachment writes `f.id` and `level` only
  have keep : ∀ z, z ≠ f.id → z ≠ level → (f.attach t level).links z = t.links z :=
    fun z h₁ h₂ => by
    unfold Frame.attach
    split_ifs <;> simp only [PTree.setParent_links, PTree.setLeft_links, PTree.setRight_links,
      if_neg h₁, if_neg h₂]
  have hroot : (f.attach t level).root = t.root := by unfold Frame.attach; split_ifs <;> rfl
  refine ⟨⟨?_, ?_, ?_⟩, ?_, ?_⟩
  · cases f <;>
    · simp only [Frame.attach, Frame.isLeft, Frame.id, if_true, Bool.false_eq_true, if_false,
        PTree.setParent_links, PTree.setLeft_links, PTree.setRight_links, if_neg hne.symm,
        if_pos] at hf ⊢
      simp only [Frame.id] at hne
      rw [if_neg (Ne.symm hne), hf]
      rfl
  · exact hs.frame fun z hz => keep z (fun e => hid (List.mem_append_left _ (e ▸ hz)))
      (fun e => hlev' (List.mem_append_left _ (e ▸ hz)))
  · rw [hroot]
    exact hc.frame fun z hz => keep z (fun e => hid (List.mem_append_right _ (e ▸ hz)))
      (fun e => hlev' (List.mem_append_right _ (e ▸ hz)))
  · refine ⟨?_, trivial, trivial⟩
    unfold Frame.attach
    split_ifs <;> simp only [PTree.setParent_links, if_pos, PTree.setLeft_links,
      PTree.setRight_links, if_neg hne, hdef] <;> rfl
  · simp only [Tree.ids, List.nil_append]
    exact (List.nodup_append.2 ⟨hnd.of_append_left, List.nodup_singleton _, fun z hz hz' => by
      rw [List.mem_singleton.1 hz'] at hz; exact hlev hz⟩)

@[simp] theorem Frame.attach_size (f : Frame) (t : PTree) (level : Nat) :
    (f.attach t level).size = t.size := by
  unfold Frame.attach; split_ifs <;> rfl

@[simp] theorem Frame.attach_descending (f : Frame) (t : PTree) (level : Nat) :
    (f.attach t level).descending = t.descending := by
  unfold Frame.attach; split_ifs <;> rfl

/-! ## The walk up, over pointers -/

theorem Frame.fill_withBalance (f : Frame) (v : Int) (S : Tree) :
    ∃ l r, (f.withBalance v).fill S = .node l f.id v r := by
  cases f with
  | left x b r => exact ⟨S, r, rfl⟩
  | right l x b => exact ⟨l, S, rfl⟩

/-- `isLeft = parent.Left == node`, read from the fields of a path's node above `x`.
Source: `avltree.go` `(*AVLTree).rebalanceInsert`
Kind: L -/
theorem Frame.isLeft_eq (g : Frame) {x : Nat} (up : Option Nat) (hx : x ∉ g.sib.ids) :
    decide ((g.links (some x) up).left = some x) = g.isLeft := by
  cases g with
  | left y b r => simp [links, isLeft]
  | right l y b =>
    simp only [links, isLeft, decide_eq_false_iff_not]
    exact Tree.ptr_ne_some_of_not_mem hx

/-- One iteration of `rebalanceInsert`'s loop above a subtree that grew: it leaves the loop with
the pointers holding the walk's result, or goes on one node up, whose subtree grew in turn, with
`isLeft` read off the fields.
Source: `avltree.go` `(*AVLTree).rebalanceInsert` (loop body)
Kind: L -/
theorem Focus.rebalanceInsertBody {t : PTree} {f : Frame} {fs : List Frame} {S : Tree}
    {R : Tree × Bool} (hF : Focus t (f :: fs) S) (hR : upInsert (f :: fs) (S, true) = some R)
    (node : Nat) :
    (∃ t' S' il, PTree.rebalanceInsertBody (t, node, some f.id, f.isLeft) =
          some (.inl (t', f.id, above fs, il)) ∧
        Focus t' fs S' ∧ (∀ g ∈ fs.head?, il = g.isLeft) ∧ upInsert fs (S', true) = some R ∧
        t'.size = t.size ∧ t'.descending = t.descending) ∨
      ∃ t', PTree.rebalanceInsertBody (t, node, some f.id, f.isLeft) = some (.inr t') ∧
        Focus t' [] R.1 ∧ t'.size = t.size ∧ t'.descending = t.descending := by
  have hbal : (t.links f.id).balance = f.balance := by rw [hF.path.1, Frame.links_balance]
  obtain ⟨l, r, hfill⟩ := f.fill_withBalance (if f.isLeft then f.balance - 1 else f.balance + 1) S
  have hgrow : f.grow = f.withBalance (if f.isLeft then f.balance - 1 else f.balance + 1) := rfl
  rw [← hgrow] at hfill
  generalize hv : (if f.isLeft then f.balance - 1 else f.balance + 1) = v at hfill hgrow
  have hF₁ : Focus (t.setBalance f.id v) fs (.node l f.id v r) := by
    rw [← hfill, hgrow]; exact focus_cons.1 (hF.setBalance v)
  have hv₁ : ((t.setBalance f.id v).links f.id).balance = v := by
    rw [PTree.setBalance_links, if_pos rfl]
  simp only [upInsert, if_true, hfill, Tree.fixInsert, Option.bind_eq_bind] at hR
  simp only [PTree.rebalanceInsertBody, hbal, hv, hv₁]
  by_cases h0 : v = 0
  · -- the node is balanced again: the loop ends
    rw [if_pos h0] at hR ⊢
    rw [Option.some_bind, upInsert_false] at hR
    cases hR
    exact .inr ⟨_, rfl, hF₁.top, PTree.setBalance_size .., PTree.setBalance_descending ..⟩
  rw [if_neg h0] at hR ⊢
  by_cases h2 : v = -2 ∨ v = 2
  · -- rotation at the node: the loop ends
    rw [if_pos h2] at hR ⊢
    obtain ⟨_, h₁, h₂⟩ := Option.bind_eq_some.1 hR
    obtain ⟨T₂, hT₂, e₂⟩ := Option.bind_eq_some.1 h₁
    cases e₂
    rw [upInsert_false] at h₂
    cases h₂
    obtain ⟨t₂, y, -, e, hF₂, hsz₂, hd₂⟩ := hF₁.rebalance rfl hT₂
    exact .inr ⟨t₂, by rw [e]; rfl, hF₂.top, by rw [hsz₂, PTree.setBalance_size],
      by rw [hd₂, PTree.setBalance_descending]⟩
  -- the node leans: the loop goes on at its parent
  rw [if_neg h2] at hR ⊢
  rw [Option.some_bind] at hR
  have hpar : ((t.setBalance f.id v).links f.id).parent = above fs := by rw [hF₁.shape.1]
  refine .inl ⟨_, _, _, by rw [hpar], hF₁, ?_, hR, PTree.setBalance_size ..,
    PTree.setBalance_descending ..⟩
  cases fs with
  | nil => nofun
  | cons g gs =>
    rintro g' ⟨⟩
    have hgx : f.id ∉ g.sib.ids := fun h => hF₁.not_mem_ctx (w := f.id)
      (by simp [Tree.ids]) (by simp [ctxIds, Frame.ids, h])
    simp only [hpar, above, hF₁.path.1]
    exact g.isLeft_eq _ hgx

/-- `rebalanceInsert` from a subtree that grew walks the path up as `upInsert` does, and leaves
the pointers holding its result.
Source: `avltree.go` `(*AVLTree).rebalanceInsert`
Kind: L -/
theorem Focus.rebalanceInsert {t : PTree} {ctx : List Frame} {S : Tree} {R : Tree × Bool}
    (hF : Focus t ctx S) (hR : upInsert ctx (S, true) = some R) (node : Nat) (isLeft : Bool)
    (hl : ∀ f ∈ ctx.head?, isLeft = f.isLeft) {fuel : Nat} (hfuel : ctx.length < fuel) :
    ∃ t', t.rebalanceInsert fuel node (above ctx) isLeft = some t' ∧ Focus t' [] R.1 ∧
      t'.size = t.size ∧ t'.descending = t.descending := by
  let I : Nat → PTree × Nat × Option Nat × Bool → Prop := fun k s => ∃ ctx S,
    ctx.length = k ∧ Focus s.1 ctx S ∧ s.2.2.1 = above ctx ∧
    (∀ f ∈ ctx.head?, s.2.2.2 = f.isLeft) ∧ upInsert ctx (S, true) = some R ∧
    s.1.size = t.size ∧ s.1.descending = t.descending
  let Q : PTree → Prop := fun t' => Focus t' [] R.1 ∧ t'.size = t.size ∧
    t'.descending = t.descending
  have step : ∀ k s, I k s → (∃ s', PTree.rebalanceInsertBody s = some (.inl s') ∧
      ∃ k' < k, I k' s') ∨ ∃ a, PTree.rebalanceInsertBody s = some (.inr a) ∧ Q a := by
    rintro k ⟨t₀, nd, par, il⟩ ⟨ctx, S, rfl, hF, hpar, hl, hR, hsz, hd⟩
    dsimp only at hF hpar hl hsz hd
    subst hpar
    cases ctx with
    | nil =>
      cases hR
      exact .inr ⟨t₀, rfl, hF, hsz, hd⟩
    | cons f fs =>
      obtain rfl : il = f.isLeft := hl f rfl
      rcases hF.rebalanceInsertBody hR nd with ⟨t', S', il', e, hF', hl', hR', hsz', hd'⟩ |
        ⟨t', e, hF', hsz', hd'⟩
      · exact .inl ⟨_, e, fs.length, Nat.lt_succ_self _, fs, S', rfl, hF', rfl, hl', hR',
          hsz'.trans hsz, hd'.trans hd⟩
      · exact .inr ⟨t', e, hF', hsz'.trans hsz, hd'.trans hd⟩
  obtain ⟨t', e, hQ⟩ := loop_of_rank (I := I) (Q := Q) (k := ctx.length)
    (s := (t, node, above ctx, isLeft)) step ⟨ctx, S, rfl, hF, rfl, hl, hR, rfl, rfl⟩ hfuel
  exact ⟨t', e, hQ⟩

/-- `Insert` of a fresh node, with more fuel than the tree has nodes, holds `insertAux`'s tree,
every `Parent` and `Balance` included.
Source: `avltree.go` `(*AVLTree).Insert`
Kind: L -/
theorem Focus.insert {t : PTree} {T T' : Tree} {g : Bool} {price : Nat → UInt64} {level : Nat}
    (hF : Focus t [] T) (hlev : level ∉ T.ids) (hdef : t.links level = default)
    (hT : T.insertAux price t.descending level = some (T', g)) {fuel : Nat}
    (hfuel : T.ids.length < fuel) :
    ∃ t', t.insert price fuel level = some t' ∧ Focus t' [] T' ∧ t'.size = t.size + 1 ∧
      t'.descending = t.descending := by
  cases hroot : T.ptr with
  | none =>
    obtain rfl : T = .nil := by cases T; rfl; cases hroot
    cases hT
    refine ⟨{ t with root := some level, size := t.size + 1 },
      by simp only [PTree.insert, hF.root, hroot], ⟨rfl, ⟨hdef, trivial, trivial⟩,
      List.nodup_singleton _⟩, rfl, rfl⟩
  | some root =>
    obtain ⟨f, fs, rfl, hto, hfs, e⟩ := hF.insertDescent price level hroot hfuel
    rw [insertAux_plug hto, Tree.insertAux, Option.some_bind] at hT
    have hlev' : level ∉ ctxIds (f :: fs) := fun h =>
      hlev ((plug_ids_perm _ _).mem_iff.2 (List.mem_append_left _ h))
    have hA : Focus { f.attach t level with size := (f.attach t level).size + 1 } (f :: fs)
        (.node .nil level 0 .nil) := (hfs.attach hlev' hdef).congr rfl rfl
    obtain ⟨t', e', hF', hsz, hd⟩ := hA.rebalanceInsert hT level f.isLeft
      (fun _ hg => by cases hg; rfl) (lt_of_le_of_lt (length_le_plug _ _) hfuel)
    refine ⟨t', ?_, hF', by rw [hsz, Frame.attach_size], by rw [hd, Frame.attach_descending]⟩
    simp only [PTree.insert, hF.root, hroot, e, Option.bind_eq_bind, Option.some_bind]
    exact e'

end GoTrader.Matching
