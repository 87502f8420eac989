import GoTrader.Matching.AVLPointerRemove

/-!
# Runs of `avltree.go` over its pointer fields

Every run of the pointer model is a run of `AVLTree` read through the fields, so the AVL
invariant holds of the fields themselves:

* `PTree.height_mono` … `PTree.treeStep_mono` — a call that ends with some fuel ends the same way
  with more, so every run that completes computes what the unbounded Go code computes;
* `Represents` — the fields hold a functional tree, with its size, direction and heap;
* `Represents.treeStep_of_fuel`, `Represents.treeStep` — one admissible call over the pointers
  completes with enough fuel, and with any fuel it completes with it is the same call of
  `AVLTree`;
* `PTreeReachable.represents` — every pointer tree reached from `NewAVLTree` holds a tree that
  `AVLTree` reaches by the same calls; `PTreeReachable.simulates` — and every admissible call
  from it completes and is the same call of `AVLTree`;
* `FieldsAVL`, `PTreeReachable.fields_avl` — the AVL invariant read off the fields: `Balance`,
  `Parent`, the root's `Parent` and `Size()`.
-/

namespace GoTrader.Matching

namespace PTree

/-! ## More fuel -/

theorem height_mono (t : PTree) (k : Nat) :
    ∀ {n : Nat} {p : Option Nat} {v : Int}, t.height n p = some v → t.height (n + k) p = some v
  | _, none, _, h => by simpa [height] using h
  | 0, some _, _, h => by simp [height] at h
  | n + 1, some x, v, h => by
    rw [Nat.add_right_comm]
    simp only [height, Option.bind_eq_bind] at h ⊢
    obtain ⟨a, ha, h⟩ := Option.bind_eq_some.1 h
    obtain ⟨c, hc, h⟩ := Option.bind_eq_some.1 h
    rw [height_mono t k ha, Option.some_bind, height_mono t k hc, Option.some_bind]
    exact h

theorem rebalanceRemoveBody_mono (k : Nat) {n : Nat} :
    ∀ {s : PTree × Option Nat} {r : (PTree × Option Nat) ⊕ PTree},
      rebalanceRemoveBody n s = some r → rebalanceRemoveBody (n + k) s = some r
  | (_, none), _, h => h
  | (t, some x), r, h => by
    simp only [rebalanceRemoveBody, Option.bind_eq_bind] at h ⊢
    obtain ⟨a, ha, h⟩ := Option.bind_eq_some.1 h
    obtain ⟨c, hc, h⟩ := Option.bind_eq_some.1 h
    rw [t.height_mono k ha, Option.some_bind, t.height_mono k hc, Option.some_bind]
    exact h

theorem rebalanceRemove_mono {t t' : PTree} {n : Nat} {p : Option Nat} (k : Nat)
    (h : t.rebalanceRemove n p = some t') : t.rebalanceRemove (n + k) p = some t' :=
  loop_mono (fun _ _ => rebalanceRemoveBody_mono k) k h

theorem insert_mono {t t' : PTree} {price : Nat → UInt64} {n level : Nat} (k : Nat)
    (h : t.insert price n level = some t') : t.insert price (n + k) level = some t' := by
  cases hr : t.root with
  | none => simpa only [insert, hr] using h
  | some root =>
    simp only [insert, hr, Option.bind_eq_bind] at h ⊢
    obtain ⟨_, h₁, h⟩ := Option.bind_eq_some.1 h
    rw [loop_mono (fun _ _ => id) k h₁, Option.some_bind]
    exact loop_mono (fun _ _ => id) k h

theorem splice_mono {t t' : PTree} {n level : Nat} {c p : Option Nat} (k : Nat)
    (h : t.splice n level c p = some t') : t.splice (n + k) level c p = some t' := by
  cases p with
  | none => exact h
  | some _ => exact rebalanceRemove_mono k h

theorem remove_mono {t : PTree} {h : Heap} {n : Nat} {L : Option Nat} {r : PTree × Heap}
    (k : Nat) (hr : t.remove h n L = some r) : t.remove h (n + k) L = some r := by
  cases L with
  | none => exact hr
  | some L =>
    have hs : ∀ c p, (t.splice n L c p).map (·, h) = some r →
        (t.splice (n + k) L c p).map (·, h) = some r := fun c p he => by
      obtain ⟨t', ht', rfl⟩ := Option.map_eq_some'.1 he
      rw [splice_mono k ht']; rfl
    have hb : ∀ (t₁ : PTree) (p : Option Nat) (h' : Heap),
        ((t₁.rebalanceRemove n p).bind fun t => some (t, h')) = some r →
        ((t₁.rebalanceRemove (n + k) p).bind fun t => some (t, h')) = some r := fun t₁ p h' he => by
      obtain ⟨t', ht', he⟩ := Option.bind_eq_some.1 he
      rw [rebalanceRemove_mono k ht']; exact he
    rcases el : (t.links L).left with _ | _ <;> rcases er : (t.links L).right with _ | _ <;>
      simp only [remove, el, er] at hr ⊢
    · exact hs _ _ hr
    · exact hs _ _ hr
    · exact hs _ _ hr
    · simp only [Option.bind_eq_bind] at hr ⊢
      obtain ⟨S, hS, hr⟩ := Option.bind_eq_some.1 hr
      rw [loop_mono (fun _ _ => id) k hS, Option.some_bind]
      split at hr
      · rw [if_pos ‹_›]; simp only [Option.some_bind] at hr ⊢; exact hb _ _ _ hr
      · rw [if_neg ‹_›]
        cases hp : (t.links S).parent with
        | none => rw [hp] at hr; cases hr
        | some sp =>
          rw [hp] at hr; simp only [Option.some_bind] at hr ⊢; exact hb _ _ _ hr

/-- A call that completes with some fuel completes the same way with more.
Source: none
Kind: L -/
theorem treeStep_mono {s r : PTree × Heap} {op : TreeOp} {n : Nat} (k : Nat)
    (h : treeStep n s op = some r) : treeStep (n + k) s op = some r := by
  cases op with
  | insert m =>
    obtain ⟨_, e, rfl⟩ := Option.map_eq_some'.1 h
    rw [treeStep, insert_mono k e]; rfl
  | remove L => rw [treeStep] at h ⊢; exact remove_mono k h

end PTree

/-! ## The fields hold an `AVLTree` -/

/-- `Insert` as the functional code computes it: `insertAux` from the root.
Source: `avltree.go` `(*AVLTree).Insert`
Kind: L -/
theorem AVLTree.insert_root {t t' : AVLTree} {price : Nat → UInt64} {level : Nat}
    (h : t.insert price level = some t') :
    (∃ g, t.root.insertAux price t.descending level = some (t'.root, g)) ∧
      t'.size = t.size + 1 ∧ t'.descending = t.descending := by
  cases hr : t.root with
  | nil =>
    simp only [AVLTree.insert, hr, Option.some.injEq] at h
    subst h
    exact ⟨⟨true, rfl⟩, rfl, rfl⟩
  | node l x b r =>
    rw [AVLTree.insert, hr] at h
    obtain ⟨⟨T, g⟩, hT, h⟩ := Option.bind_eq_some.1 h
    cases h
    exact ⟨⟨g, hT⟩, rfl, rfl⟩

/-- A write to the fields of a node outside the tree leaves the tree in place.
Source: none. Kind: L -/
theorem Focus.update_outside {t : PTree} {T : Tree} (hF : Focus t [] T) {x : Nat}
    (hx : x ∉ T.ids) (v : Links) :
    Focus { t with links := Function.update t.links x v } [] T :=
  ⟨hF.path, hF.shape.frame fun _ hz => Function.update_noteq (ne_of_mem_of_not_mem hz hx) _ _,
    hF.nodup⟩

/-- The pointer fields hold the functional tree (`Focus` from its root), with its size and
direction, over the same heap.
Source: none: the abstraction of `avltree.go`'s fields as `AVLTree`
Kind: D -/
structure Represents (p : PTree × Heap) (s : AVLTree × Heap) : Prop where
  focus : Focus p.1 [] s.1.root
  size : p.1.size = s.1.size
  descending : p.1.descending = s.1.descending
  heap : p.2 = s.2

namespace Represents

variable {p : PTree × Heap} {s : AVLTree × Heap}

theorem init (d : Bool) (links : Nat → Links) (h : Heap) :
    Represents (PTree.newAVLTree d links, h) (AVLTree.newAVLTree d, h) :=
  ⟨⟨rfl, trivial, List.nodup_nil⟩, rfl, rfl, rfl⟩

/-- The nodes reachable from the root along the fields are the tree's. Source: none. Kind: L -/
theorem reaches_iff (hR : Represents p s) {x : Nat} :
    PTree.Reaches p.1.links p.1.root x ↔ x ∈ s.1.root.ids := by
  rw [hR.focus.root]
  exact hR.focus.shape.reaches

theorem admissible_iff (hR : Represents p s) {op : TreeOp} :
    PTree.Admissible p op ↔ op.Admissible s := by
  cases op with
  | insert n => simp only [PTree.Admissible, TreeOp.Admissible, hR.reaches_iff, hR.heap]
  | remove L => exact hR.reaches_iff

variable {d : Bool} {fuel : Nat} {p' : PTree × Heap}

/-- With more fuel than the tree has nodes, an admissible call over the fields completes, and it
is the same call of `AVLTree`.
Source: `avltree.go` (`Insert`, `Remove`)
Kind: L -/
theorem treeStep_of_fuel (hR : Represents p s) (hI : TreeInv d s) {op : TreeOp}
    (hop : op.Admissible s) (hfuel : s.1.root.ids.length < fuel) :
    ∃ s' p', AVLTree.treeStep s op = some s' ∧ PTree.treeStep fuel p op = some p' ∧
      Represents p' s' := by
  obtain ⟨t, h⟩ := p
  obtain ⟨T, h₂⟩ := s
  obtain ⟨hF, hsz, hd, rfl⟩ := hR
  dsimp only at hF hsz hd hop hfuel
  cases op with
  | insert n =>
    obtain ⟨s', hs', -, -⟩ := hI.insert hop
    obtain ⟨T', hT', rfl⟩ := Option.map_eq_some'.1 hs'
    obtain ⟨⟨g, hT⟩, hsz', hd'⟩ := AVLTree.insert_root hT'
    have hlev : h.next ∉ T.root.ids := fun hx => Nat.lt_irrefl _ (hI.lt_next _ hx)
    obtain ⟨t', e, hF', hsz'', hd''⟩ := (hF.update_outside hlev default).insert hlev
      (Function.update_same _ _ _) (hd ▸ hT) hfuel
    exact ⟨_, _, hs', by rw [PTree.treeStep, e]; rfl, hF', by rw [hsz'', hsz', ← hsz],
      by rw [hd'', hd', ← hd], rfl⟩
  | remove L =>
    obtain ⟨s', hs', -⟩ := hI.remove hop
    obtain ⟨⟨root', c, succ⟩, hrm, e⟩ := Option.bind_eq_some.1 hs'
    obtain ⟨t', e', hF', hsz', hd'⟩ := hF.remove (h := h) hop hrm hfuel
    cases e
    refine ⟨_, _, hs', e', hF', by rw [hsz', hsz], hd'.trans hd, ?_⟩
    cases succ <;> rfl

/-- One admissible call over the fields is the same call of `AVLTree`, whatever fuel it
completed with.
Source: `avltree.go` (`Insert`, `Remove`)
Kind: L -/
theorem treeStep (hR : Represents p s) (hI : TreeInv d s) {op : TreeOp} (hop : op.Admissible s)
    (hp : PTree.treeStep fuel p op = some p') :
    ∃ s', AVLTree.treeStep s op = some s' ∧ Represents p' s' := by
  obtain ⟨s', p'', hs', e, hR'⟩ := hR.treeStep_of_fuel hI hop
    (show s.1.root.ids.length < fuel + (s.1.root.ids.length + 1) by omega)
  rw [PTree.treeStep_mono _ hp, Option.some.injEq] at e
  exact ⟨s', hs', e ▸ hR'⟩

end Represents

/-- Every pointer tree reached from `NewAVLTree(d)` holds a tree that `AVLTree` reaches from
`NewAVLTree(d)` by the same calls.
Source: `avltree.go`
Kind: L -/
theorem PTreeReachable.represents {d : Bool} {p : PTree × Heap} (hp : PTreeReachable d p) :
    ∃ s, TreeReachable d s ∧ Represents p s := by
  induction hp with
  | init links h => exact ⟨_, .init h, .init d links h⟩
  | step _ _ hop hst ih =>
    obtain ⟨s, hs, hR⟩ := ih
    have hop' := hR.admissible_iff.1 hop
    obtain ⟨s', e, hR'⟩ := hR.treeStep hs.inv hop' hst
    exact ⟨s', .step hs hop' e, hR'⟩

/-- The pointer-level `avltree.go` refines the functional `AVLTree`. From every pointer tree
reached from `NewAVLTree(d)`, an admissible `Insert` or `Remove` with more fuel than the tree has
nodes completes: Go's loops end and no nil is dereferenced. And the call commutes with the
representation: the fields before hold a tree that `AVLTree` reaches from `NewAVLTree(d)`, and
the fields after hold the tree `AVLTree` computes by the same call.
Source: `avltree.go` (`Insert`, `rebalanceInsert`, `Remove`, `rebalanceRemove`, `rebalance`,
`rotateLeft`, `rotateRight`)
Kind: P -/
theorem PTreeReachable.simulates {d : Bool} {p : PTree × Heap} (hp : PTreeReachable d p)
    {op : TreeOp} (hop : PTree.Admissible p op) {fuel : Nat} (hfuel : p.1.size < fuel) :
    ∃ s p' s', TreeReachable d s ∧ Represents p s ∧ PTree.treeStep fuel p op = some p' ∧
      AVLTree.treeStep s op = some s' ∧ Represents p' s' := by
  obtain ⟨s, hs, hR⟩ := hp.represents
  have hI := hs.inv
  have hlen : s.1.root.ids.length < fuel := by
    rw [hR.size, hI.size] at hfuel
    exact_mod_cast hfuel
  obtain ⟨s', p', hs', e, hR'⟩ := hR.treeStep_of_fuel hI (hR.admissible_iff.1 hop) hlen
  exact ⟨s, p', s', hs, hR, e, hs', hR'⟩

/-! ## The AVL invariant over the fields -/

theorem avl_of_plug : ∀ {ctx : List Frame} {S : Tree}, (plug ctx S).AVL → S.AVL
  | [], _, h => h
  | .left _ _ _ :: fs, _, h => (@avl_of_plug fs _ h).1
  | .right _ _ _ :: fs, _, h => (@avl_of_plug fs _ h).2.1

/-- A node reachable from the root is a node of the tree, with its subtree in place.
Source: none. Kind: L -/
theorem Focus.node_of_reaches {t : PTree} {T : Tree} (hF : Focus t [] T) {x : Nat}
    (hx : PTree.Reaches t.links t.root x) :
    ∃ ctx l b r, T = plug ctx (.node l x b r) ∧ Focus t ctx (.node l x b r) := by
  rw [hF.root, hF.shape.reaches] at hx
  obtain ⟨ctx, l, b, r, rfl⟩ := exists_plug_of_mem hx
  exact ⟨ctx, l, b, r, rfl, by simpa using focus_plug.1 hF⟩

/-- The AVL invariant read off the fields of the nodes reachable from the root.
Source: `avltree.go` (what `rebalanceInsert`, `rebalanceRemove` and the rotations keep)
Kind: D -/
structure FieldsAVL (t : PTree) : Prop where
  /-- Every node's `Balance` is `height(Right) - height(Left)`, Go's `height` run with as much
  fuel as the tree has nodes, and lies in `-1..1`. -/
  balance : ∀ x, PTree.Reaches t.links t.root x → ∀ n : Nat, t.size ≤ n →
    ∃ hl hr, t.height n (t.links x).left = some hl ∧ t.height n (t.links x).right = some hr ∧
      (t.links x).balance = hr - hl ∧ -1 ≤ (t.links x).balance ∧ (t.links x).balance ≤ 1
  /-- Every child's `Parent` is its parent. -/
  parent : ∀ x c, PTree.Reaches t.links t.root x →
    ((t.links x).left = some c ∨ (t.links x).right = some c) → (t.links c).parent = some x
  /-- The root's `Parent` is nil. -/
  root : ∀ r, t.root = some r → (t.links r).parent = none
  /-- `Size()` is the number of nodes reachable from the root. -/
  size : ∃ nodes : List Nat, nodes.Nodup ∧
    (∀ x, x ∈ nodes ↔ PTree.Reaches t.links t.root x) ∧ t.size = nodes.length

/-- Fields that hold an AVL tree, with its node count as `size`, keep the invariant.
Source: none. Kind: L -/
theorem Focus.fieldsAVL {t : PTree} {T : Tree} (hF : Focus t [] T) (hA : T.AVL)
    (hsz : t.size = T.ids.length) : FieldsAVL t where
  balance x hx n hn := by
    obtain ⟨ctx, l, b, r, rfl, hN⟩ := hF.node_of_reaches hx
    obtain ⟨hlinks, hl, hr⟩ := hN.shape
    obtain ⟨-, -, hb⟩ := avl_of_plug hA
    have hlen := plug_length ctx (.node l x b r)
    simp only [Tree.ids, List.length_append, List.length_cons] at hlen
    have hn' : (plug ctx (.node l x b r)).ids.length ≤ n := by rw [hsz] at hn; exact_mod_cast hn
    rw [hlinks]
    exact ⟨_, _, hl.height (by omega), hr.height (by omega), hb⟩
  parent x c hx hc := by
    obtain ⟨ctx, l, b, r, -, hN⟩ := hF.node_of_reaches hx
    obtain ⟨hlinks, hl, hr⟩ := hN.shape
    rw [hlinks] at hc
    rcases hc with hc | hc
    · cases l with
      | nil => cases hc
      | node _ _ _ _ => cases hc; rw [hl.1]
    · cases r with
      | nil => cases hc
      | node _ _ _ _ => cases hc; rw [hr.1]
  root r hr := by
    rw [hF.root] at hr
    cases T with
    | nil => cases hr
    | node _ _ _ _ => cases hr; rw [hF.shape.1]; rfl
  size := ⟨T.ids, by simpa using hF.nodup, fun x => by rw [hF.root, hF.shape.reaches], hsz⟩

/-- In every pointer tree reached from `NewAVLTree(d)` by `Insert` of new prices and `Remove` of
its nodes, the fields keep the AVL invariant: every `Balance` is the height difference of the
node's subtrees and lies in `-1..1`, every child's `Parent` is its parent, the root's is nil, and
`Size()` is the number of nodes.
Source: `avltree.go` (`rebalanceInsert`, `rebalanceRemove`, `rebalance`, `rotateLeft`,
`rotateRight`, `Insert`, `Remove`)
Kind: P -/
theorem PTreeReachable.fields_avl {d : Bool} {p : PTree × Heap} (hp : PTreeReachable d p) :
    FieldsAVL p.1 := by
  obtain ⟨s, hs, hR⟩ := hp.represents
  have hI := hs.inv
  exact hR.focus.fieldsAVL hI.avl (hR.size.trans hI.size)

/-! ## A run over the fields -/

/-- `NewAVLTree(true)` over fresh level nodes and an empty heap. Source: none: a run. Kind: D -/
def bidStart : PTree × Heap := (PTree.newAVLTree true fun _ => default, levelHeap)

/-- Source: none: a run (`Insert` of a bid level at 10). Kind: D -/
def bidPtr₁ : PTree × Heap := (PTree.treeStep 3 bidStart (.insert (bidLevel 10))).getD bidStart

/-- Source: none: a run (`Insert` of a bid level at 20). Kind: D -/
def bidPtr₂ : PTree × Heap := (PTree.treeStep 3 bidPtr₁ (.insert (bidLevel 20))).getD bidPtr₁

/-- Source: none: a run (`Insert` of a bid level at 30, which rotates 20's node to the root).
Kind: D -/
def bidPtr₃ : PTree × Heap := (PTree.treeStep 3 bidPtr₂ (.insert (bidLevel 30))).getD bidPtr₂

/-- `bidTree`'s run over the fields: `Remove` of the root, whose successor is 10's node.
Source: none: a run. Kind: D -/
def bidPtr : PTree × Heap := (PTree.treeStep 3 bidPtr₃ (.remove 1)).getD bidPtr₃

theorem reachable_bidPtr₃ : PTreeReachable true bidPtr₃ := by
  have h₁ : PTreeReachable true bidPtr₁ :=
    @PTreeReachable.step _ bidStart _ (.insert (bidLevel 10)) 3 (.init _ _)
      (fun _ hx => by cases hx) rfl
  have h₂ : PTreeReachable true bidPtr₂ :=
    @PTreeReachable.step _ bidPtr₁ _ (.insert (bidLevel 20)) 3 h₁ (fun _ hx => by
      rcases hx with _ | ⟨⟨⟩⟩ | ⟨⟨⟩⟩
      decide) rfl
  exact @PTreeReachable.step _ bidPtr₂ _ (.insert (bidLevel 30)) 3 h₂ (fun _ hx => by
    rcases hx with _ | ⟨_ | ⟨⟨⟩⟩ | ⟨⟨⟩⟩⟩ | ⟨⟨⟩⟩
    · decide
    · decide) rfl

theorem reachable_bidPtr : PTreeReachable true bidPtr :=
  @PTreeReachable.step _ bidPtr₃ _ (.remove 1) 3 reachable_bidPtr₃ (.here 1) rfl

theorem bidPtr₃_simulates :
    PTreeReachable true bidPtr₃ ∧ PTree.Admissible bidPtr₃ (.remove 1) ∧ bidPtr₃.1.size < 4 ∧
      ∃ s p' s', TreeReachable true s ∧ Represents bidPtr₃ s ∧
        PTree.treeStep 4 bidPtr₃ (.remove 1) = some p' ∧ AVLTree.treeStep s (.remove 1) = some s' ∧
        Represents p' s' :=
  have hop : PTree.Admissible bidPtr₃ (.remove 1) := PTree.Reaches.here 1
  ⟨reachable_bidPtr₃, hop, by decide, PTreeReachable.simulates reachable_bidPtr₃ hop (by decide)⟩

example : bidPtr.1.root = some 1 ∧ (bidPtr.1.links 1).left = some 2 ∧
    (bidPtr.1.links 1).right = none ∧ (bidPtr.1.links 2).parent = some 1 ∧
    (bidPtr.1.links 1).balance = -1 ∧ bidPtr.1.size = 2 := by decide

theorem bid_ptr_fields_avl : PTreeReachable true bidPtr ∧ FieldsAVL bidPtr.1 :=
  ⟨reachable_bidPtr, PTreeReachable.fields_avl reachable_bidPtr⟩

end GoTrader.Matching
