import GoTrader.Matching.AVLPointer

/-!
# Which pointer fields a tree has

The link between `AVLPointer.lean` and `AVLTree.lean`: when the level nodes' fields hold a given
`Tree`, and how a path up the `Parent` pointers is seen.

* `Tree.ptr`, `Shape links par T` — from the root of `T` down, every node's `Left` and `Right`
  are its children, its `Parent` the node above (`par` at the root) and its `Balance` the stored
  balance;
* `Frame`, `plug`, `CtxShape` — a path from a subtree up to the root, as Go's loops walk it
  through `Parent`; `Focus t ctx T` says that `t`'s pointers hold `plug ctx T` with distinct
  nodes, seen from `T` (`focus_cons` moves the focus one node down);
* `Shape.frame`, `CtxShape.frame` — writes to other nodes do not matter;
  `CtxShape.replaceChild` — Go's relinking of a parent to a new child;
* `Shape.reaches` — the nodes reachable from the root are the tree's; `Shape.height` — Go's
  `height` computes `Tree.height`.
-/

namespace GoTrader.Matching

namespace Tree

/-- The pointer to a subtree's root; `nil` for the empty tree. Source: none. Kind: D -/
def ptr : Tree → Option Nat
  | nil => none
  | node _ x _ _ => some x

@[simp] theorem ptr_nil : nil.ptr = none := rfl
@[simp] theorem ptr_node (l : Tree) (x : Nat) (b : Int) (r : Tree) :
    (node l x b r).ptr = some x := rfl

theorem ptr_ne_some_of_not_mem {t : Tree} {x : Nat} (hx : x ∉ t.ids) : t.ptr ≠ some x := by
  cases t with
  | nil => nofun
  | node l y b r =>
    rintro ⟨⟩
    exact hx (by simp [ids])

theorem mem_ids_of_ptr {t : Tree} {x : Nat} (h : t.ptr = some x) : x ∈ t.ids := by
  cases t with
  | nil => cases h
  | node l y b r => cases h; simp [ids]

theorem nodup_ids_node {l r : Tree} {x : Nat} {b : Int} :
    (node l x b r).ids.Nodup ↔
      l.ids.Nodup ∧ r.ids.Nodup ∧ x ∉ l.ids ∧ x ∉ r.ids ∧ ∀ z ∈ l.ids, z ∉ r.ids := by
  simp only [ids, List.nodup_append, List.nodup_cons, List.disjoint_cons_right]
  constructor
  · rintro ⟨hl, ⟨hxr, hr⟩, hxl, hlr⟩
    exact ⟨hl, hr, hxl, hxr, fun z hz hzr => hlr hz hzr⟩
  · rintro ⟨hl, hr, hxl, hxr, hlr⟩
    exact ⟨hl, ⟨hxr, hr⟩, hxl, fun z hz hzr => hlr z hz hzr⟩

theorem mem_ids_node {l r : Tree} {x z : Nat} {b : Int} :
    z ∈ (node l x b r).ids ↔ z ∈ l.ids ∨ z = x ∨ z ∈ r.ids := by
  simp only [ids, List.mem_append, List.mem_cons]

end Tree

/-! ## The shape of a subtree -/

/-- The pointer fields from the root of `T` down are those of `T`, whose root hangs below `par`.
Source: `level.go` `LevelNode` (`Left`, `Right`, `Parent`, `Balance` as `avltree.go` keeps them)
Kind: D -/
def Shape (links : Nat → Links) (par : Option Nat) : Tree → Prop
  | .nil => True
  | .node l x b r =>
    links x = ⟨l.ptr, r.ptr, par, b⟩ ∧ Shape links (some x) l ∧ Shape links (some x) r

@[simp] theorem shape_nil (links : Nat → Links) (par : Option Nat) : Shape links par .nil :=
  trivial

@[simp] theorem shape_node (links : Nat → Links) (par : Option Nat) (l : Tree) (x : Nat) (b : Int)
    (r : Tree) : Shape links par (.node l x b r) ↔
      links x = ⟨l.ptr, r.ptr, par, b⟩ ∧ Shape links (some x) l ∧ Shape links (some x) r :=
  Iff.rfl

/-- Only the fields of the subtree's own nodes matter. Source: none. Kind: L -/
theorem Shape.frame {links links' : Nat → Links} {par : Option Nat} :
    ∀ {T : Tree}, Shape links par T → (∀ z ∈ T.ids, links' z = links z) → Shape links' par T
  | .nil, _, _ => trivial
  | .node l x b r, ⟨hx, hl, hr⟩, h => by
    simp only [Tree.ids, List.mem_append, List.mem_cons] at h
    exact ⟨(h x (.inr (.inl rfl))).trans hx, hl.frame fun z hz => h z (.inl hz),
      hr.frame fun z hz => h z (.inr (.inr hz))⟩

/-- The root's `Parent` may change without touching the rest. Source: none. Kind: L -/
theorem Shape.reparent {links links' : Nat → Links} {par par' : Option Nat} {T : Tree}
    (hT : Shape links par T) (hnd : T.ids.Nodup)
    (hroot : ∀ x, T.ptr = some x → links' x = { links x with parent := par' })
    (hother : ∀ z ∈ T.ids, T.ptr ≠ some z → links' z = links z) : Shape links' par' T := by
  cases T with
  | nil => trivial
  | node l x b r =>
    obtain ⟨hx, hl, hr⟩ := hT
    simp only [Tree.ids, List.nodup_append, List.nodup_cons, List.mem_cons] at hnd
    refine ⟨by rw [hroot x rfl, hx], hl.frame fun z hz => hother z (by simp [Tree.ids, hz]) ?_,
      hr.frame fun z hz => hother z (by simp [Tree.ids, hz]) ?_⟩
    · rintro ⟨⟩; exact hnd.2.2 hz (.head _)
    · rintro ⟨⟩; exact hnd.2.1.1 hz

/-- The nodes reachable from the root along `Left` and `Right` are the tree's.
Source: none. Kind: L -/
theorem Shape.reaches {links : Nat → Links} {par : Option Nat} :
    ∀ {T : Tree}, Shape links par T → ∀ {x : Nat}, PTree.Reaches links T.ptr x ↔ x ∈ T.ids
  | .nil, _, x => ⟨nofun, nofun⟩
  | .node l y b r, ⟨hy, hl, hr⟩, x => by
    have el : (links y).left = l.ptr := by rw [hy]
    have er : (links y).right = r.ptr := by rw [hy]
    simp only [Tree.ptr_node, Tree.ids, List.mem_append, List.mem_cons]
    constructor
    · rintro (_ | ⟨h⟩ | ⟨h⟩)
      · exact .inr (.inl rfl)
      · rw [el] at h; exact .inl (hl.reaches.1 h)
      · rw [er] at h; exact .inr (.inr (hr.reaches.1 h))
    · rintro (h | rfl | h)
      · exact .left (el ▸ hl.reaches.2 h)
      · exact .here _
      · exact .right (er ▸ hr.reaches.2 h)

/-- Go's `height`, with fuel for every level of the subtree, computes `Tree.height`.
Source: `avltree.go` `(*AVLTree).height`
Kind: L -/
theorem Shape.height {t : PTree} {par : Option Nat} :
    ∀ {T : Tree}, Shape t.links par T → ∀ {n : Nat}, T.ids.length ≤ n →
      t.height n T.ptr = some T.height
  | .nil, _, _, _ => by simp [PTree.height, Tree.height]
  | .node l x b r, ⟨hx, hl, hr⟩, n + 1, hn => by
    simp only [Tree.ids, List.length_append, List.length_cons] at hn
    simp only [PTree.height, Tree.ptr_node, hx, hl.height (by omega : l.ids.length ≤ n),
      hr.height (by omega : r.ids.length ≤ n), Option.bind_eq_bind, Option.some_bind,
      Tree.height]
  | .node l x b r, _, 0, hn => by simp [Tree.ids] at hn

/-! ## Paths up to the root -/

/-- One step up from a subtree: the node above it, its stored balance and its other subtree;
`left` when the subtree is its left child.
Source: none: the path that `avltree.go` walks along `Parent`
Kind: D -/
inductive Frame where
  | left (id : Nat) (balance : Int) (sib : Tree)
  | right (sib : Tree) (id : Nat) (balance : Int)

namespace Frame

/-- Source: none. Kind: D -/
def id : Frame → Nat
  | left x _ _ => x
  | right _ x _ => x

/-- Source: none. Kind: D -/
def sib : Frame → Tree
  | left _ _ r => r
  | right l _ _ => l

/-- The frame's node over the subtree `t`. Source: none. Kind: D -/
def fill : Frame → Tree → Tree
  | left x b r, t => .node t x b r
  | right l x b, t => .node l x b t

/-- The fields of the frame's node when the hole holds `hole` and the node above is `up`.
Source: none. Kind: D -/
def links (hole up : Option Nat) : Frame → Links
  | left _ b r => ⟨hole, r.ptr, up, b⟩
  | right l _ b => ⟨l.ptr, hole, up, b⟩

/-- The frame's node and the nodes of its other subtree. Source: none. Kind: D -/
def ids (f : Frame) : List Nat := f.id :: f.sib.ids

/-- The hole is the left child (Go's `isLeft`). Source: none. Kind: D -/
def isLeft : Frame → Bool
  | left .. => true
  | right .. => false

/-- The frame with its node's stored balance set to `v`. Source: none. Kind: D -/
def withBalance (v : Int) : Frame → Frame
  | left x _ r => left x v r
  | right l x _ => right l x v

@[simp] theorem id_withBalance (v : Int) (f : Frame) : (f.withBalance v).id = f.id := by
  cases f <;> rfl
@[simp] theorem sib_withBalance (v : Int) (f : Frame) : (f.withBalance v).sib = f.sib := by
  cases f <;> rfl
@[simp] theorem ids_withBalance (v : Int) (f : Frame) : (f.withBalance v).ids = f.ids := by
  cases f <;> rfl
@[simp] theorem isLeft_withBalance (v : Int) (f : Frame) : (f.withBalance v).isLeft = f.isLeft := by
  cases f <;> rfl

theorem links_withBalance (v : Int) (f : Frame) (hole up : Option Nat) :
    (f.withBalance v).links hole up = { f.links hole up with balance := v } := by
  cases f <;> rfl

theorem fill_ids_perm (f : Frame) (t : Tree) : List.Perm (f.fill t).ids (f.ids ++ t.ids) := by
  cases f with
  | left x b r =>
    simp only [fill, ids, id, sib, Tree.ids, List.cons_append]
    exact List.perm_middle.trans (.cons _ List.perm_append_comm)
  | right l x b =>
    simp only [fill, ids, id, sib, Tree.ids, List.cons_append]
    exact List.perm_middle

@[simp] theorem ptr_fill (f : Frame) (t : Tree) : (f.fill t).ptr = some f.id := by
  cases f <;> rfl

theorem shape_fill {L : Nat → Links} {up : Option Nat} (f : Frame) (t : Tree) :
    Shape L up (f.fill t) ↔
      L f.id = f.links t.ptr up ∧ Shape L (some f.id) f.sib ∧ Shape L (some f.id) t := by
  cases f with
  | left x b r => simp only [fill, shape_node, links, id, sib]; tauto
  | right l x b => simp only [fill, shape_node, links, id, sib]

end Frame

/-- The tree with `t` in the hole of the path `ctx` (innermost frame first).
Source: none. Kind: D -/
def plug : List Frame → Tree → Tree
  | [], t => t
  | f :: fs, t => plug fs (f.fill t)

/-- The node above the hole: the `Parent` of the subtree's root. Source: none. Kind: D -/
def above : List Frame → Option Nat
  | [] => none
  | f :: _ => some f.id

/-- The nodes of a path. Source: none. Kind: D -/
def ctxIds : List Frame → List Nat
  | [] => []
  | f :: fs => f.ids ++ ctxIds fs

/-- The fields of the path's nodes are those of a path from a hole holding `hole` up to the
tree's `root`.
Source: none. Kind: D -/
def CtxShape (links : Nat → Links) (root : Option Nat) : Option Nat → List Frame → Prop
  | hole, [] => root = hole
  | hole, f :: fs => links f.id = f.links hole (above fs) ∧ Shape links (some f.id) f.sib ∧
      CtxShape links root (some f.id) fs

theorem length_le_ctxIds : ∀ ctx : List Frame, ctx.length ≤ (ctxIds ctx).length
  | [] => le_rfl
  | f :: fs => by
    simp only [ctxIds, Frame.ids, List.length_cons, List.cons_append, List.length_append]
    have := length_le_ctxIds fs
    omega

theorem plug_ids_perm : ∀ (ctx : List Frame) (t : Tree),
    List.Perm (plug ctx t).ids (ctxIds ctx ++ t.ids)
  | [], _ => .refl _
  | f :: fs, t => by
    refine (plug_ids_perm fs (f.fill t)).trans ?_
    simp only [ctxIds, List.append_assoc]
    exact ((f.fill_ids_perm t).append_left _).trans (List.perm_append_comm_assoc _ _ _).symm

/-- Only the fields of the path's own nodes matter. Source: none. Kind: L -/
theorem CtxShape.frame {links links' : Nat → Links} {root : Option Nat} :
    ∀ {ctx : List Frame} {hole : Option Nat}, CtxShape links root hole ctx →
      (∀ z ∈ ctxIds ctx, links' z = links z) → CtxShape links' root hole ctx
  | [], _, h, _ => h
  | f :: fs, _, ⟨hf, hs, hfs⟩, h => by
    simp only [ctxIds, Frame.ids, List.cons_append, List.mem_cons, List.mem_append] at h
    exact ⟨(h _ (.inl rfl)).trans hf, hs.frame fun z hz => h z (.inr (.inl hz)),
      hfs.frame fun z hz => h z (.inr (.inr hz))⟩

/-! ## The pointers seen from a subtree -/

/-- `t`'s pointers hold the tree `plug ctx T`, whose nodes are distinct, seen from `T`.
Source: none. Kind: D -/
structure Focus (t : PTree) (ctx : List Frame) (T : Tree) : Prop where
  path : CtxShape t.links t.root T.ptr ctx
  shape : Shape t.links (above ctx) T
  nodup : (ctxIds ctx ++ T.ids).Nodup

/-- Moving the focus one node down. Source: none. Kind: L -/
theorem focus_cons {t : PTree} {f : Frame} {ctx : List Frame} {T : Tree} :
    Focus t (f :: ctx) T ↔ Focus t ctx (f.fill T) := by
  have hp : List.Perm (ctxIds (f :: ctx) ++ T.ids) (ctxIds ctx ++ (f.fill T).ids) := by
    simp only [ctxIds, List.append_assoc]
    exact (List.perm_append_comm_assoc _ _ _).trans
      ((f.fill_ids_perm T).symm.append_left _)
  constructor
  · rintro ⟨⟨hf, hs, hc⟩, hT, hnd⟩
    exact ⟨by rwa [Frame.ptr_fill], (Frame.shape_fill f T).2 ⟨hf, hs, hT⟩, hp.nodup_iff.1 hnd⟩
  · rintro ⟨hc, hT, hnd⟩
    obtain ⟨hf, hs, hT⟩ := (Frame.shape_fill f T).1 hT
    exact ⟨⟨hf, hs, by rwa [Frame.ptr_fill] at hc⟩, hT, hp.nodup_iff.2 hnd⟩

theorem Focus.root {t : PTree} {T : Tree} (h : Focus t [] T) : t.root = T.ptr := h.path

/-- Only the fields and the root matter. Source: none. Kind: L -/
theorem Focus.congr {t t' : PTree} {ctx : List Frame} {T : Tree} (h : Focus t ctx T)
    (hl : t'.links = t.links) (hr : t'.root = t.root) : Focus t' ctx T :=
  ⟨by rw [hl, hr]; exact h.path, by rw [hl]; exact h.shape, h.nodup⟩

theorem Focus.nodup_ids {t : PTree} {ctx : List Frame} {T : Tree} (h : Focus t ctx T) :
    T.ids.Nodup :=
  h.nodup.of_append_right

theorem Focus.nodup_ctx {t : PTree} {ctx : List Frame} {T : Tree} (h : Focus t ctx T) :
    (ctxIds ctx).Nodup :=
  h.nodup.of_append_left

theorem Focus.not_mem_ctx {t : PTree} {ctx : List Frame} {T : Tree} (h : Focus t ctx T)
    {w : Nat} (hw : w ∈ T.ids) : w ∉ ctxIds ctx :=
  fun hc => (List.nodup_append.1 h.nodup).2.2 hc hw

/-- The node above the subtree is on the path. Source: none. Kind: L -/
theorem above_ne_some {ctx : List Frame} {w : Nat} (h : w ∉ ctxIds ctx) : above ctx ≠ some w := by
  cases ctx with
  | nil => nofun
  | cons f fs => rintro ⟨⟩; exact h (by simp [ctxIds, Frame.ids])

/-- The whole tree, seen from its root. Source: none. Kind: L -/
theorem Focus.top {t : PTree} : ∀ {ctx : List Frame} {T : Tree}, Focus t ctx T →
    Focus t [] (plug ctx T)
  | [], _, h => h
  | _ :: _, _, h => (focus_cons.1 h).top

/-- `x.Balance = v` at the node above the subtree. Source: none. Kind: L -/
theorem Focus.setBalance {t : PTree} {f : Frame} {fs : List Frame} {S : Tree} (v : Int)
    (h : Focus t (f :: fs) S) : Focus (t.setBalance f.id v) (f.withBalance v :: fs) S := by
  obtain ⟨⟨hf, hs, hc⟩, hS, hnd⟩ := h
  have hnd' := hnd
  simp only [ctxIds, Frame.ids, List.cons_append, List.nodup_cons, List.mem_append] at hnd'
  have hid : ∀ z, z ∈ f.sib.ids ∨ z ∈ ctxIds fs ∨ z ∈ S.ids → z ≠ f.id := fun z hz e =>
    hnd'.1 (by subst e; rcases hz with h | h | h <;> simp only [h, true_or, or_true])
  have keep : ∀ z, z ≠ f.id → (t.setBalance f.id v).links z = t.links z := fun z hz => by
    rw [PTree.setBalance_links, if_neg hz]
  have hS' := hS.frame fun z hz => keep z (hid z (.inr (.inr hz)))
  refine ⟨⟨?_, ?_, ?_⟩, by simpa only [above, Frame.id_withBalance] using hS',
    by simpa only [ctxIds, Frame.ids_withBalance] using hnd⟩
  · rw [Frame.id_withBalance, PTree.setBalance_links, if_pos rfl, hf, Frame.links_withBalance]
  · simpa only [Frame.id_withBalance, Frame.sib_withBalance] using
      hs.frame fun z hz => keep z (hid z (.inl hz))
  · simpa only [Frame.id_withBalance] using hc.frame fun z hz => keep z (hid z (.inr (.inl hz)))

/-- `x.Balance = v` at the subtree's root. Source: none. Kind: L -/
theorem Focus.setRootBalance {t : PTree} {ctx : List Frame} {l r : Tree} {x : Nat} {b : Int}
    (v : Int) (h : Focus t ctx (.node l x b r)) : Focus (t.setBalance x v) ctx (.node l x v r) := by
  obtain ⟨-, -, hxl, hxr, -⟩ := Tree.nodup_ids_node.1 h.nodup_ids
  have hx : x ∉ ctxIds ctx := h.not_mem_ctx (Tree.mem_ids_node.2 (.inr (.inl rfl)))
  have keep : ∀ z, z ≠ x → (t.setBalance x v).links z = t.links z := fun z hz => by
    rw [PTree.setBalance_links, if_neg hz]
  obtain ⟨hx', hl, hr⟩ := h.shape
  refine ⟨h.path.frame fun z hz => keep z (fun e => hx (e ▸ hz)),
    ⟨by rw [PTree.setBalance_links, if_pos rfl, hx'], hl.frame fun z hz => keep z
      (fun e => hxl (e ▸ hz)), hr.frame fun z hz => keep z (fun e => hxr (e ▸ hz))⟩,
    by simpa only [Tree.ids] using h.nodup⟩

/-- Go's relinking of the parent of the subtree at `x` (or of the root) to `new`.
Source: `avltree.go` (the `parent.Left == node` blocks)
Kind: L -/
theorem CtxShape.replaceChild {t : PTree} {x : Nat} {new : Option Nat} :
    ∀ {ctx : List Frame}, CtxShape t.links t.root (some x) ctx → x ∉ ctxIds ctx →
      (ctxIds ctx).Nodup →
      CtxShape (t.replaceChild (above ctx) x new).links (t.replaceChild (above ctx) x new).root
        new ctx
  | [], _, _, _ => rfl
  | f :: fs, ⟨hf, hs, hc⟩, hx, hnd => by
    simp only [ctxIds, Frame.ids, List.cons_append, List.mem_cons, List.mem_append, not_or,
      List.nodup_cons, List.nodup_append] at hx hnd
    have hid : f.id ∉ ctxIds fs := hnd.1.2
    have hsib : f.id ∉ f.sib.ids := hnd.1.1
    have key : ∀ v : Links, v = f.links new (above fs) →
        CtxShape (Function.update t.links f.id v) t.root new (f :: fs) := fun v hv =>
      ⟨by rw [Function.update_same, hv], hs.frame fun z hz => Function.update_noteq
        (ne_of_mem_of_not_mem hz hsib) _ _,
        hc.frame fun z hz => Function.update_noteq (ne_of_mem_of_not_mem hz hid) _ _⟩
    cases f with
    | left y b r =>
      simp only [Frame.links, Frame.id] at hf key
      simp only [above, PTree.replaceChild, Frame.id, hf, if_true]
      exact key { t.links y with left := new } (by rw [hf])
    | right l y b =>
      simp only [Frame.links, Frame.id, Frame.sib] at hf key hx
      have hl : l.ptr ≠ some x := Tree.ptr_ne_some_of_not_mem hx.2.1
      simp only [above, PTree.replaceChild, Frame.id, hf, hl, if_false]
      exact key { t.links y with right := new } (by rw [hf])

end GoTrader.Matching
