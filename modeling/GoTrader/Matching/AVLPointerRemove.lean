import GoTrader.Matching.AVLPointerInsert

/-!
# `Remove` over pointers

`PTree.remove` — the unlinking of the node, or of its successor after the payload moves, and
`rebalanceRemove`'s walk up the `Parent` chain — holds `Tree.removeAux`'s result:

* `upRemove` — the functional walk back up a path, one `fixRemove` per node while the subtree
  shrank; `removeAux_plug`, `removeMin_plug` — `removeAux` and `removeMin` as the unlinking
  followed by that walk; `exists_plug_of_mem`, `exists_plug_of_first` — the path to a node of
  the tree, and to its leftmost node; `removeAux_two` — the two-child case as the successor's
  removal and the walk up through the node;
* `Focus.splice` — Go's unlinking of a node with at most one child;
* `Focus.successor` — the `successor` loop finds the leftmost node of the right subtree, and
  `Focus.successor_parent` — its `Parent` tells which link of its parent to rewrite;
* `Focus.rebalanceRemoveBody` — one iteration of `rebalanceRemove`'s loop does one step of the
  walk; `Focus.rebalanceRemove` — so the loop does the walk; `Focus.spliceRemove` — the
  unlinking followed by the walk;
* `Focus.remove` — the whole of `Remove`, with enough fuel for its loops and for `height`.
-/

namespace GoTrader.Matching

/-! ## Paths in a tree -/

theorem plug_append : ∀ (fs gs : List Frame) (t : Tree), plug (fs ++ gs) t = plug gs (plug fs t)
  | [], _, _ => rfl
  | f :: fs, gs, t => plug_append fs gs (f.fill t)

theorem focus_plug {t : PTree} {ctx : List Frame} :
    ∀ {sp : List Frame} {Y : Tree}, Focus t ctx (plug sp Y) ↔ Focus t (sp ++ ctx) Y
  | [], _ => Iff.rfl
  | f :: fs, Y => by rw [plug, focus_plug, List.cons_append, focus_cons]

/-- A node of the tree is at the end of a path from the root. Source: none. Kind: L -/
theorem exists_plug_of_mem {L : Nat} :
    ∀ {T : Tree}, L ∈ T.ids → ∃ ctx l b r, T = plug ctx (.node l L b r)
  | .nil, h => nomatch h
  | .node l x b r, h => by
    rcases Tree.mem_ids_node.1 h with h | rfl | h
    · obtain ⟨ctx, l', b', r', e⟩ := exists_plug_of_mem h
      exact ⟨ctx ++ [.left x b r], l', b', r', by rw [plug_append, ← e]; rfl⟩
    · exact ⟨[], l, b, r, rfl⟩
    · obtain ⟨ctx, l', b', r', e⟩ := exists_plug_of_mem h
      exact ⟨ctx ++ [.right l x b], l', b', r', by rw [plug_append, ← e]; rfl⟩

/-- The leftmost node is at the end of a path of left children. Source: none. Kind: L -/
theorem exists_plug_of_first {S : Nat} :
    ∀ {T : Tree}, T.first = some S →
      ∃ spine bs sr, T = plug spine (.node .nil S bs sr) ∧ ∀ f ∈ spine, f.isLeft
  | .nil, h => nomatch h
  | .node .nil x b r, h => by
    cases h
    exact ⟨[], b, r, rfl, nofun⟩
  | .node (.node ll lx lb lr) x b r, h => by
    obtain ⟨sp, bs, sr, e, hl⟩ := exists_plug_of_first (T := .node ll lx lb lr) h
    refine ⟨sp ++ [.left x b r], bs, sr, by rw [plug_append, ← e]; rfl, fun f hf => ?_⟩
    rcases List.mem_append.1 hf with hf | hf
    · exact hl f hf
    · rw [List.mem_singleton.1 hf]; rfl

/-! ## The walk up, functionally -/

/-- `removeAux`'s and `removeMin`'s way back up a path: one `fixRemove` per node while the
subtree shrank.
Source: `avltree.go` `(*AVLTree).rebalanceRemove`
Kind: D -/
def upRemove : List Frame → Tree × Bool → Option (Tree × Bool)
  | [], r => some r
  | f :: fs, (t, c) =>
    (if c then (f.fill t).fixRemove else some (f.fill t, false)).bind (upRemove fs)

theorem upRemove_false : ∀ (fs : List Frame) (t : Tree),
    upRemove fs (t, false) = some (plug fs t, false)
  | [], _ => rfl
  | _ :: fs, _ => upRemove_false fs _

theorem upRemove_append : ∀ (fs gs : List Frame) (r : Tree × Bool),
    upRemove (fs ++ gs) r = (upRemove fs r).bind (upRemove gs)
  | [], _, _ => rfl
  | f :: fs, gs, (t, c) => by
    rw [List.cons_append]
    simp only [upRemove, Option.bind_assoc]
    exact congrArg (Option.bind _) (funext fun q => upRemove_append fs gs q)

/-- `removeMin` descends a path of left children, then walks back up it.
Source: `avltree.go` `(*AVLTree).Remove` (the successor's removal)
Kind: L -/
theorem removeMin_plug : ∀ {spine : List Frame}, (∀ f ∈ spine, f.isLeft) → ∀ {Y : Tree},
    Y ≠ .nil → (plug spine Y).removeMin =
      Y.removeMin.bind fun q => (upRemove spine (q.1, q.2.2)).map fun r => (r.1, q.2.1, r.2)
  | [], _, Y, _ => by
    simp only [plug, upRemove, Option.map_some']
    exact (Option.bind_some _).symm
  | f :: fs, h, Y, hY => by
    have hfill : f.fill Y ≠ .nil := by cases f <;> nofun
    rw [plug, removeMin_plug (fun g hg => h g (.tail _ hg)) hfill]
    cases f with
    | right l x b => exact absurd (h _ (.head _)) (by simp [Frame.isLeft])
    | left x b r =>
      obtain ⟨yl, yx, yb, yr, rfl⟩ : ∃ yl yx yb yr, Y = .node yl yx yb yr := by
        cases Y with
        | nil => exact absurd rfl hY
        | node yl yx yb yr => exact ⟨yl, yx, yb, yr, rfl⟩
      simp only [Frame.fill, Tree.removeMin, Option.bind_eq_bind, Option.bind_assoc]
      refine congrArg (Option.bind _) (funext fun ⟨l', s, c⟩ => ?_)
      cases c <;>
        simp [upRemove, upRemove_false, Frame.fill, Option.map_bind, Option.bind_map,
          Option.bind_assoc]

/-- `removeAux` descends to the node, unlinks it, then walks back up the path.
Source: `avltree.go` `(*AVLTree).Remove`
Kind: L -/
theorem removeAux_plug {L : Nat} : ∀ {ctx : List Frame} {s : Tree}, L ∉ ctxIds ctx →
    L ∈ s.ids → (plug ctx s).removeAux L =
      (s.removeAux L).bind fun q => (upRemove ctx (q.1, q.2.1)).map fun r => (r.1, r.2, q.2.2)
  | [], s, _, _ => by
    simp only [plug, upRemove, Option.map_some']
    exact (Option.bind_some _).symm
  | f :: fs, s, hc, hs => by
    simp only [ctxIds, Frame.ids, List.cons_append, List.mem_cons, List.mem_append, not_or]
      at hc
    have hfill : L ∈ (f.fill s).ids := by
      cases f <;> simp [Frame.fill, Tree.mem_ids_node, hs]
    rw [plug, removeAux_plug hc.2.2 hfill]
    cases f with
    | left x b r =>
      simp only [Frame.id] at hc
      simp only [Frame.fill, Tree.removeAux, if_neg (Ne.symm hc.1), if_pos hs,
        Option.bind_eq_bind, Option.bind_assoc]
      refine congrArg (Option.bind _) (funext fun ⟨l', c, s'⟩ => ?_)
      cases c <;>
        simp [upRemove, upRemove_false, Frame.fill, Option.map_bind, Option.bind_map,
          Option.bind_assoc]
    | right l x b =>
      simp only [Frame.id, Frame.sib] at hc
      simp only [Frame.fill, Tree.removeAux, if_neg (Ne.symm hc.1), if_neg hc.2.1,
        Option.bind_eq_bind, Option.bind_assoc]
      refine congrArg (Option.bind _) (funext fun ⟨r', c, s'⟩ => ?_)
      cases c <;>
        simp [upRemove, upRemove_false, Frame.fill, Option.map_bind, Option.bind_map,
          Option.bind_assoc]

theorem plug_eq_node : ∀ (ctx : List Frame) {l r : Tree} {x : Nat} {b : Int},
    ∃ l' x' b' r', plug ctx (.node l x b r) = .node l' x' b' r'
  | [], _, _, _, _ => ⟨_, _, _, _, rfl⟩
  | .left _ _ _ :: fs, _, _, _, _ => plug_eq_node fs
  | .right _ _ _ :: fs, _, _, _, _ => plug_eq_node fs

/-- `removeAux` at a node with two children: the successor's removal from the right subtree, then
the walk up through the node.
Source: `avltree.go` `(*AVLTree).Remove`
Kind: L -/
theorem removeAux_two {l : Tree} {L S : Nat} {b bs : Int} {sr : Tree} {spine : List Frame}
    (hl : l ≠ .nil) (hsp : ∀ f ∈ spine, f.isLeft) :
    (Tree.node l L b (plug spine (.node .nil S bs sr))).removeAux L =
      (upRemove (spine ++ [.right l L b]) (sr, true)).map fun q => (q.1, q.2, some S) := by
  obtain ⟨ll, lx, lb, lr, rfl⟩ : ∃ ll lx lb lr, l = .node ll lx lb lr := by
    cases l with
    | nil => exact absurd rfl hl
    | node ll lx lb lr => exact ⟨ll, lx, lb, lr, rfl⟩
  obtain ⟨rl, rx, rb, rr, hr⟩ := plug_eq_node spine (l := .nil) (x := S) (b := bs) (r := sr)
  have hmin := removeMin_plug hsp (Y := .node .nil S bs sr) nofun
  rw [hr] at hmin ⊢
  simp only [Tree.removeAux, if_pos rfl, Option.bind_eq_bind]
  rw [hmin]
  simp only [Tree.removeMin, Option.some_bind, upRemove_append, Option.map_bind, Option.bind_map]
  refine congrArg (Option.bind _) (funext fun ⟨r', c⟩ => ?_)
  cases c <;> simp [upRemove, Frame.fill, Option.map_eq_bind, Function.comp_def]

/-! ## Unlinking and the successor, over pointers -/

/-- Go's unlinking of a node `x` with at most one child `c`: the parent's link (or the root)
goes to `c`, and `c`'s `Parent` to the parent.
Source: `avltree.go` `(*AVLTree).Remove`
Kind: L -/
theorem Focus.splice {t : PTree} {ctx : List Frame} {l r c : Tree} {x : Nat} {b : Int}
    (hF : Focus t ctx (.node l x b r)) (hc : (l = .nil ∧ c = r) ∨ (r = .nil ∧ c = l)) :
    Focus ((t.replaceChild (above ctx) x c.ptr).reparent c.ptr (above ctx)) ctx c := by
  obtain ⟨-, hl, hr⟩ := hF.shape
  obtain ⟨hlnd, hrnd, hxl, hxr, -⟩ := Tree.nodup_ids_node.1 hF.nodup_ids
  have hx : x ∉ ctxIds ctx := hF.not_mem_ctx (Tree.mem_ids_node.2 (.inr (.inl rfl)))
  have hsub : List.Sublist c.ids (Tree.node l x b r).ids := by
    rcases hc with ⟨-, rfl⟩ | ⟨-, rfl⟩
    · exact (List.sublist_cons_self _ _).trans (List.sublist_append_right _ _)
    · exact List.sublist_append_left _ _
  have hcS : Shape t.links (some x) c := by rcases hc with ⟨-, rfl⟩ | ⟨-, rfl⟩ <;> assumption
  have out : ∀ z ∈ c.ids, z ∉ ctxIds ctx := fun z hz => hF.not_mem_ctx (hsub.subset hz)
  -- the unlinking writes the parent (or the root) and `c`'s root only
  have hw : ∀ z ∈ c.ids, (t.replaceChild (above ctx) x c.ptr).links z = t.links z :=
    fun z hz => t.replaceChild_links_of_ne _ _ (above_ne_some (out z hz))
  refine ⟨hF.path.relink hx hF.nodup_ctx (fun z hz => ?_) (PTree.reparent_root _ _ _), ?_, ?_⟩
  · rw [PTree.reparent_links, if_neg fun e => out z (Tree.mem_ids_of_ptr e) hz]
  · have hcnd : c.ids.Nodup := by rcases hc with ⟨-, rfl⟩ | ⟨-, rfl⟩ <;> assumption
    refine hcS.reparent hcnd (fun z hz => ?_) fun z hz hne => ?_
    · rw [PTree.reparent_links, if_pos hz, hw z (Tree.mem_ids_of_ptr hz)]
    · rw [PTree.reparent_links, if_neg hne, hw z hz]
  · exact hF.nodup.sublist (hsub.append_left _)

/-- The `successor` loop from the root of a subtree stops at its leftmost node.
Source: `avltree.go` `(*AVLTree).Remove` (`for successor.Left != nil`)
Kind: L -/
theorem Focus.successor {t : PTree} {ctx : List Frame} {R : Tree} {r : Nat} (hF : Focus t ctx R)
    (hr : R.ptr = some r) {fuel : Nat} (hfuel : R.ids.length < fuel) :
    ∃ S, loop t.successorBody fuel r = some S ∧ R.first = some S := by
  let I : Nat → Nat → Prop := fun k x => ∃ Y par, Shape t.links par Y ∧ Y.ptr = some x ∧
    Y.first = R.first ∧ Y.ids.length ≤ k
  have step : ∀ k x, I k x → (∃ x', t.successorBody x = some (.inl x') ∧ ∃ k' < k, I k' x') ∨
      ∃ S, t.successorBody x = some (.inr S) ∧ R.first = some S := by
    rintro k x ⟨Y, par, hY, hx, hfirst, hk⟩
    cases Y with
    | nil => cases hx
    | node yl y yb yr =>
      cases hx
      have hl : (t.links x).left = yl.ptr := by rw [hY.1]
      cases yl with
      | nil => exact .inr ⟨x, by simp only [PTree.successorBody, hl, Tree.ptr_nil], hfirst.symm⟩
      | node ll lx lb lr =>
        simp only [Tree.ids, List.length_append, List.length_cons] at hk
        refine .inl ⟨lx, by simp only [PTree.successorBody, hl, Tree.ptr_node], _, ?_,
          .node ll lx lb lr, some x, hY.2.1, rfl, hfirst, le_rfl⟩
        simp only [Tree.ids, List.length_append, List.length_cons]
        omega
  exact loop_of_rank (I := I) (k := R.ids.length) step ⟨R, above ctx, hF.shape, hr, rfl, le_rfl⟩
    hfuel

theorem plug_length (ctx : List Frame) (S : Tree) :
    (plug ctx S).ids.length = (ctxIds ctx).length + S.ids.length := by
  rw [(plug_ids_perm ctx S).length_eq, List.length_append]

theorem Frame.fill_eq_node (f : Frame) (S : Tree) :
    ∃ L R, f.fill S = .node L f.id f.balance R := by
  cases f with
  | left x b r => exact ⟨S, r, rfl⟩
  | right l x b => exact ⟨l, S, rfl⟩

/-! ## The walk up, over pointers -/

/-- One iteration of `rebalanceRemove`'s loop at the parent of a subtree that shrank: it leaves
the loop with the pointers holding the walk's result, or goes on at the next node up, whose
subtree shrank in turn; `height` needs no more fuel than the tree has nodes.
Source: `avltree.go` `(*AVLTree).rebalanceRemove` (loop body)
Kind: L -/
theorem Focus.rebalanceRemoveBody {t : PTree} {f : Frame} {fs : List Frame} {S : Tree}
    {R : Tree × Bool} (hF : Focus t (f :: fs) S) (hR : upRemove (f :: fs) (S, true) = some R)
    {fuel : Nat} (hfuel : (plug (f :: fs) S).ids.length < fuel) :
    (∃ t' S', PTree.rebalanceRemoveBody fuel (t, some f.id) = some (.inl (t', above fs)) ∧
        Focus t' fs S' ∧ upRemove fs (S', true) = some R ∧ (plug fs S').ids.length < fuel ∧
        t'.size = t.size ∧ t'.descending = t.descending) ∨
      ∃ t', PTree.rebalanceRemoveBody fuel (t, some f.id) = some (.inr t') ∧
        Focus t' [] R.1 ∧ t'.size = t.size ∧ t'.descending = t.descending := by
  obtain ⟨L, R', hfill⟩ := f.fill_eq_node S
  have hN : Focus t fs (.node L f.id f.balance R') := hfill ▸ focus_cons.1 hF
  rw [plug, hfill] at hfuel
  simp only [upRemove, if_true, hfill, Tree.fixRemove, Option.bind_eq_bind] at hR
  obtain ⟨hlinks, hLs, hRs⟩ := hN.shape
  have hlen := plug_length fs (.node L f.id f.balance R')
  simp only [Tree.ids, List.length_append, List.length_cons] at hlen
  have hL := hLs.height (t := t) (n := fuel) (by omega)
  have hR'' := hRs.height (t := t) (n := fuel) (by omega)
  set v := R'.height - L.height
  have hN₁ := hN.setRootBalance v
  have hv : ((t.setBalance f.id v).links f.id).balance = v := by
    rw [PTree.setBalance_links, if_pos rfl]
  have hlen₁ : (plug fs (.node L f.id v R')).ids.length < fuel := by
    rw [plug_length]; simp only [Tree.ids, List.length_append, List.length_cons]; omega
  simp only [PTree.rebalanceRemoveBody, hlinks, hL, hR'', Option.bind_eq_bind, Option.some_bind,
    hv]
  by_cases h2 : v = -2 ∨ v = 2
  · -- rotation at the node; the loop ends unless the rotated subtree shrank
    rw [if_pos h2] at hR ⊢
    obtain ⟨_, h₁, h₂⟩ := Option.bind_eq_some.1 hR
    obtain ⟨T₂, hT₂, e₂⟩ := Option.bind_eq_some.1 h₁
    cases e₂
    obtain ⟨t₂, y, hy, e, hN₂, hsz₂, hd₂⟩ := hN₁.rebalance rfl hT₂
    have hlen₂ : (plug fs T₂).ids.length < fuel := by
      rwa [plug_length, Tree.rebalance_ids hT₂, ← plug_length]
    cases T₂ with
    | nil => cases hy
    | node l₂ y₂ b₂ r₂ =>
      cases hy
      have hb₂ : (t₂.links y).balance = b₂ := by rw [hN₂.shape.1]
      simp only [e, Option.some_bind, hb₂]
      by_cases h1 : b₂ = -1 ∨ b₂ = 1
      · rw [if_pos h1]
        simp only [Tree.balance, h1, decide_True, Bool.not_true, upRemove_false] at h₂
        cases h₂
        exact .inr ⟨t₂, rfl, hN₂.top, by rw [hsz₂, PTree.setBalance_size],
          by rw [hd₂, PTree.setBalance_descending]⟩
      · rw [if_neg h1]
        simp only [Tree.balance, h1, decide_False, Bool.not_false] at h₂
        exact .inl ⟨t₂, _, by rw [hN₂.shape.1], hN₂, h₂, hlen₂,
          by rw [hsz₂, PTree.setBalance_size], by rw [hd₂, PTree.setBalance_descending]⟩
  · -- no rotation; the loop ends when the old balance was `0`
    rw [if_neg h2] at hR ⊢
    by_cases h0 : f.balance = 0
    · rw [if_pos h0]
      simp only [h0, ne_eq, not_true_eq_false, decide_False, Option.some_bind,
        upRemove_false] at hR
      cases hR
      exact .inr ⟨_, rfl, hN₁.top, PTree.setBalance_size .., PTree.setBalance_descending ..⟩
    · rw [if_neg h0]
      simp only [h0, ne_eq, not_false_eq_true, decide_True, Option.some_bind] at hR
      exact .inl ⟨_, _, by rw [hN₁.shape.1], hN₁, hR, hlen₁, PTree.setBalance_size ..,
        PTree.setBalance_descending ..⟩

/-- `rebalanceRemove` from the parent of a subtree that shrank walks the path up as `upRemove`
does, and leaves the pointers holding its result.
Source: `avltree.go` `(*AVLTree).rebalanceRemove`
Kind: L -/
theorem Focus.rebalanceRemove {t : PTree} {ctx : List Frame} {S : Tree} {R : Tree × Bool}
    (hF : Focus t ctx S) (hR : upRemove ctx (S, true) = some R) {fuel : Nat}
    (hfuel : (plug ctx S).ids.length < fuel) :
    ∃ t', t.rebalanceRemove fuel (above ctx) = some t' ∧ Focus t' [] R.1 ∧
      t'.size = t.size ∧ t'.descending = t.descending := by
  let I : Nat → PTree × Option Nat → Prop := fun k s => ∃ ctx S, ctx.length = k ∧
    Focus s.1 ctx S ∧ s.2 = above ctx ∧ upRemove ctx (S, true) = some R ∧
    (plug ctx S).ids.length < fuel ∧ s.1.size = t.size ∧ s.1.descending = t.descending
  let Q : PTree → Prop := fun t' => Focus t' [] R.1 ∧ t'.size = t.size ∧
    t'.descending = t.descending
  have step : ∀ k s, I k s → (∃ s', PTree.rebalanceRemoveBody fuel s = some (.inl s') ∧
      ∃ k' < k, I k' s') ∨ ∃ a, PTree.rebalanceRemoveBody fuel s = some (.inr a) ∧ Q a := by
    rintro k ⟨t₀, nd⟩ ⟨ctx, S, rfl, hF, hnd, hR, hfu, hsz, hd⟩
    dsimp only at hF hnd hsz hd
    subst hnd
    cases ctx with
    | nil =>
      cases hR
      exact .inr ⟨t₀, rfl, hF, hsz, hd⟩
    | cons f fs =>
      rcases hF.rebalanceRemoveBody hR hfu with ⟨t', S', e, hF', hR', hfu', hsz', hd'⟩ |
        ⟨t', e, hF', hsz', hd'⟩
      · exact .inl ⟨_, e, fs.length, Nat.lt_succ_self _, fs, S', rfl, hF', rfl, hR', hfu',
          hsz'.trans hsz, hd'.trans hd⟩
      · exact .inr ⟨t', e, hF', hsz'.trans hsz, hd'.trans hd⟩
  exact loop_of_rank (I := I) (Q := Q) (k := ctx.length) (s := (t, above ctx)) step
    ⟨ctx, S, rfl, hF, rfl, hR, hfuel, rfl, rfl⟩ (lt_of_le_of_lt (length_le_plug ctx S) hfuel)

/-- Go's unlinking of a node with at most one child, and the walk up from its parent.
Source: `avltree.go` `(*AVLTree).Remove` (`t.splice`)
Kind: L -/
theorem Focus.spliceRemove {t : PTree} {ctx : List Frame} {l r c : Tree} {x : Nat} {b : Int}
    (hF : Focus t ctx (.node l x b r)) (hc : (l = .nil ∧ c = r) ∨ (r = .nil ∧ c = l))
    {R : Tree × Bool} (hR : upRemove ctx (c, true) = some R) {fuel : Nat}
    (hfuel : (plug ctx (.node l x b r)).ids.length < fuel) :
    ∃ t', t.splice fuel x c.ptr (above ctx) = some t' ∧ Focus t' [] R.1 ∧
      t'.size = t.size - 1 ∧ t'.descending = t.descending := by
  set t₁ := (t.replaceChild (above ctx) x c.ptr).reparent c.ptr (above ctx)
  have hS : Focus { t₁ with size := t₁.size - 1 } ctx c := (hF.splice hc).congr rfl rfl
  have hsz : t₁.size = t.size := by simp [t₁]
  have hd : t₁.descending = t.descending := by simp [t₁]
  have hlen : (plug ctx c).ids.length < fuel := by
    have : c.ids.length < (Tree.node l x b r).ids.length := by
      rcases hc with ⟨-, rfl⟩ | ⟨-, rfl⟩ <;>
        simp only [Tree.ids, List.length_append, List.length_cons] <;> omega
    rw [plug_length] at hfuel ⊢
    omega
  cases ctx with
  | nil =>
    cases hR
    exact ⟨_, rfl, hS, congrArg (· - 1) hsz, hd⟩
  | cons f fs =>
    obtain ⟨t', e, hF', hsz', hd'⟩ := hS.rebalanceRemove hR hlen
    exact ⟨t', e, hF', hsz'.trans (congrArg (· - 1) hsz), hd'.trans hd⟩

theorem ctxIds_append : ∀ (fs gs : List Frame), ctxIds (fs ++ gs) = ctxIds fs ++ ctxIds gs
  | [], _ => rfl
  | f :: fs, gs => by rw [List.cons_append, ctxIds, ctxIds, ctxIds_append fs gs, List.append_assoc]

/-- Go's unlinking of the successor reads its `Parent`: `L` itself when the successor is `L`'s
right child, where `replaceChild` writes `Right`; otherwise the node above it on the path of left
children, where `replaceChild` writes `Left`.
Source: `avltree.go` `(*AVLTree).Remove` (`if successor.Parent == level`)
Kind: L -/
theorem Focus.successor_parent {t : PTree} {spine ctx : List Frame} {l sr : Tree} {L S : Nat}
    {b bs : Int} (hS : Focus t (spine ++ .right l L b :: ctx) (.node .nil S bs sr))
    (hsp : ∀ f ∈ spine, f.isLeft) :
    (above (spine ++ .right l L b :: ctx) = some L ∧
        t.replaceChild (some L) S sr.ptr = t.setRight L sr.ptr) ∨
      ∃ p, above (spine ++ .right l L b :: ctx) = some p ∧ p ≠ L ∧ p ≠ S ∧
        t.replaceChild (some p) S sr.ptr = t.setLeft p sr.ptr := by
  have hSc := hS.not_mem_ctx (Tree.mem_ids_node.2 (.inr (.inl rfl)))
  cases spine with
  | nil =>
    have hlS : l.ptr ≠ some S := fun e =>
      hSc (by simp [ctxIds, Frame.ids, Frame.sib, Tree.mem_ids_of_ptr e])
    have hL : (t.links L).left = l.ptr := congrArg Links.left hS.path.1
    exact .inl ⟨rfl, by simp only [PTree.replaceChild, hL, if_neg hlS]⟩
  | cons g gs =>
    cases g with
    | right => exact absurd (hsp _ (.head _)) (by simp [Frame.isLeft])
    | left gx gb gr =>
      have hg : (t.links gx).left = some S := congrArg Links.left hS.path.1
      have hnd := hS.nodup_ctx
      rw [List.cons_append, ctxIds, Frame.ids, List.cons_append, List.nodup_cons] at hnd
      refine .inr ⟨gx, rfl, fun e => hnd.1 ?_, fun e => hSc ?_, ?_⟩
      · rw [ctxIds_append]; simp [ctxIds, Frame.ids, Frame.id, e]
      · simp [ctxIds, Frame.ids, Frame.id, e]
      · simp only [PTree.replaceChild, hg, if_true]

/-- `Remove` of a node of the tree, with more fuel than the tree has nodes, leaves the pointers
holding `removeAux`'s tree, and moves the successor's payload as `AVLTree.remove` does.
Source: `avltree.go` `(*AVLTree).Remove`
Kind: L -/
theorem Focus.remove {t : PTree} {T T' : Tree} {h : Heap} {L : Nat} {c : Bool}
    {succ : Option Nat} (hF : Focus t [] T) (hL : L ∈ T.ids)
    (hT : T.removeAux L = some (T', c, succ)) {fuel : Nat} (hfuel : T.ids.length < fuel) :
    ∃ t', t.remove h fuel (some L) = some (t', succ.elim h fun s => h.moveLevel s L) ∧
      Focus t' [] T' ∧ t'.size = t.size - 1 ∧ t'.descending = t.descending := by
  obtain ⟨ctx, l, b, r, rfl⟩ := exists_plug_of_mem hL
  have hN : Focus t ctx (.node l L b r) := by simpa using focus_plug.1 hF
  have hLN : L ∈ (Tree.node l L b r).ids := Tree.mem_ids_node.2 (.inr (.inl rfl))
  rw [removeAux_plug (hN.not_mem_ctx hLN) hLN] at hT
  have hlinks := hN.shape.1
  -- at most one child: Go's `splice`
  have one : ∀ {c₀ : Tree}, ((l = .nil ∧ c₀ = r) ∨ (r = .nil ∧ c₀ = l)) →
      (Tree.node l L b r).removeAux L = some (c₀, true, none) →
      ∃ t', (t.splice fuel L c₀.ptr (above ctx)).map (·, h) = some (t', h) ∧
        Focus t' [] T' ∧ t'.size = t.size - 1 ∧ t'.descending = t.descending ∧ succ = none := by
    intro c₀ hc he
    rw [he, Option.some_bind] at hT
    obtain ⟨R, hR, e⟩ := Option.map_eq_some'.1 hT
    simp only [Prod.mk.injEq] at e
    obtain ⟨rfl, -, rfl⟩ := e
    obtain ⟨t', ht', hF', hsz, hd⟩ := hN.spliceRemove hc hR hfuel
    exact ⟨t', by rw [ht']; rfl, hF', hsz, hd, rfl⟩
  cases l with
  | nil =>
    obtain ⟨t', e, hF', hsz, hd, rfl⟩ :=
      one (.inl ⟨rfl, rfl⟩) (by cases r <;> simp [Tree.removeAux])
    refine ⟨t', ?_, hF', hsz, hd⟩
    cases r <;> simpa only [PTree.remove, hlinks, Tree.ptr_nil, Tree.ptr_node] using e
  | node ll lx lb lr =>
    cases r with
    | nil =>
      obtain ⟨t', e, hF', hsz, hd, rfl⟩ := one (.inr ⟨rfl, rfl⟩) (by simp [Tree.removeAux])
      exact ⟨t', by simpa only [PTree.remove, hlinks, Tree.ptr_nil, Tree.ptr_node] using e, hF',
        hsz, hd⟩
    | node rl rx rb rr =>
      -- two children: the successor is the leftmost node of the right subtree
      have hNr : Focus t (.right (.node ll lx lb lr) L b :: ctx) (.node rl rx rb rr) :=
        focus_cons.2 hN
      have hlenr : (Tree.node rl rx rb rr).ids.length < fuel := by
        rw [plug_length] at hfuel
        simp only [Tree.ids, List.length_append, List.length_cons] at hfuel ⊢
        omega
      obtain ⟨S, hloop, hfirst⟩ := hNr.successor rfl hlenr
      obtain ⟨spine, bs, sr, hsp_eq, hsp⟩ := exists_plug_of_first hfirst
      have hS : Focus t (spine ++ .right (.node ll lx lb lr) L b :: ctx) (.node .nil S bs sr) :=
        focus_plug.1 (hsp_eq ▸ hNr)
      have hSL : S ≠ L := fun e => hS.not_mem_ctx (Tree.mem_ids_node.2 (.inr (.inl rfl))) (by
        rw [ctxIds_append]; simp [ctxIds, Frame.ids, Frame.id, e])
      -- the functional side: `removeMin` of the right subtree, then the walk up
      rw [hsp_eq, removeAux_two (l := .node ll lx lb lr) nofun hsp] at hT
      obtain ⟨q, hq, e⟩ := Option.bind_eq_some.1 hT
      obtain ⟨q₀, hq₀, rfl⟩ := Option.map_eq_some'.1 hq
      obtain ⟨R, hR, e⟩ := Option.map_eq_some'.1 e
      simp only [Prod.mk.injEq] at e
      obtain ⟨rfl, -, rfl⟩ := e
      have hR' : upRemove (spine ++ .right (.node ll lx lb lr) L b :: ctx) (sr, true) = some R := by
        rw [← List.singleton_append, ← List.append_assoc, upRemove_append, hq₀]
        exact hR
      -- the pointer side: Go's unlinking of the successor is `splice` at its parent
      obtain ⟨t', e, hF', hsz, hd⟩ := hS.spliceRemove (.inl ⟨rfl, rfl⟩) hR'
        (by rw [plug_append, ← hsp_eq]; exact hfuel)
      refine ⟨t', ?_, hF', hsz, hd⟩
      simp only [PTree.remove, hlinks, Tree.ptr_node, Option.bind_eq_bind, hloop, Option.some_bind,
        PTree.setRight_links, PTree.setLeft_links, if_neg hSL, hS.shape.1]
      rcases hS.successor_parent hsp with ⟨hp, hrc⟩ | ⟨p, hp, hpL, hpS, hrc⟩
      · rw [hp] at e
        simp only [PTree.splice, hrc] at e
        rw [if_pos hp, e]
        rfl
      · rw [hp] at e
        simp only [PTree.splice, hrc] at e
        rw [if_neg fun e' => hpL (Option.some.inj (hp.symm.trans e')), hp, Option.some_bind,
          if_neg (Ne.symm hpS), e]
        rfl

end GoTrader.Matching
