import OpaFm.Qmap.Proofs.TreeCells

/-!
# Balancing after an insertion

A red node may have a red parent; all else is in order.  A turn moves that place up by two nodes
or ends at a black parent.
-/

namespace OpaFm.Qmap

section

open OpaFm.Lib OpaFm.Lib.RedBlack OpaFm.Lib.RedBlack.RbTree

variable {μ ι : Type} [DecidableEq μ] [DecidableEq ι] {h : TreeHeap μ ι} {m : μ} {s d : Side}
  {c : Color} {p g u : ι} {ps gs un uf t y w : RbTree ι} {ctx : List (Frame ι)} {n : Nat}

theorem turnRed_step
    (hT : MapTree h m (fill (⟨s, .red, p, ps⟩ :: ⟨d, .black, g, join d .red un u uf⟩ :: ctx) t)) :
    TreeStep m h (fill (⟨s, .red, p, ps⟩ :: ⟨d, .black, g, join d .red un u uf⟩ :: ctx) t)
      (((h.setColor (.item u) .black).setColor (.item p) .black).setColor (.item g) .red)
      (fill ctx (join d .red (join s .black t p ps) g (join d .black un u uf))) := by
  have hu := setSiblingColor_step (t := join s .red t p ps) hT .black
  have hT₂ : MapTree (h.setColor (.item u) .black) m
      (fill (⟨d, .black, g, join d .black un u uf⟩ :: ctx) (join s .red t p ps)) := hu.tree
  have hp := setColor_step hT₂ .black
  have hT₃ : MapTree ((h.setColor (.item u) .black).setColor (.item p) .black) m
      (fill ctx (join d .black (join s .black t p ps) g (join d .black un u uf))) := hp.tree
  exact (hu.trans hp).trans (setColor_step hT₃ .red)

theorem turnOuter_step
    (hT : MapTree h m (fill (⟨d, .red, p, ps⟩ :: ⟨d, .black, g, gs⟩ :: ctx) t)) :
    TreeStep m h (fill (⟨d, .red, p, ps⟩ :: ⟨d, .black, g, gs⟩ :: ctx) t)
      (((h.setColor (.item p) .black).setColor (.item g) .red).rot d.other m (.item g))
      (fill (⟨d, .black, p, join d.other .red gs g ps⟩ :: ctx) t) := by
  have hT₁ : MapTree h m (fill (⟨d, .black, g, gs⟩ :: ctx) (join d .red t p ps)) := hT
  have hp := setColor_step hT₁ .black
  have hT₂ : MapTree (h.setColor (.item p) .black) m
      (fill ctx (join d .black (join d .black t p ps) g gs)) := hp.tree
  have hg := setColor_step hT₂ .red
  have hswap : join d .red (join d .black t p ps) g gs =
      join d.other .red gs g (join d.other .black ps p t) := by
    rw [join_other, join_other]
  rw [hswap] at hg
  have hrot := rot_step hg.tree
  rw [join_other d .black (join d.other .red gs g ps) p t] at hrot
  exact (hp.trans hg).trans hrot

theorem turnInner_step
    (hT : MapTree h m (fill (⟨d.other, .red, p, ps⟩ :: ⟨d, .black, g, gs⟩ :: ctx)
      (join d .red y u w))) :
    TreeStep m h (fill (⟨d.other, .red, p, ps⟩ :: ⟨d, .black, g, gs⟩ :: ctx) (join d .red y u w))
      (h.rot d m (.item p))
      (fill (⟨d, .red, u, w⟩ :: ⟨d, .black, g, gs⟩ :: ctx) (join d .red ps p y)) := by
  have hswap : fill (⟨d.other, .red, p, ps⟩ :: ⟨d, .black, g, gs⟩ :: ctx) (join d .red y u w) =
      fill (⟨d, .black, g, gs⟩ :: ctx) (join d .red ps p (join d .red y u w)) := by
    rw [fill_sibling, Side.other_other]
    rfl
  rw [hswap] at hT ⊢
  exact rot_step hT

theorem insBalTurn_spec
    (hT : MapTree h m (fill (⟨s, .red, p, ps⟩ :: ⟨d, .black, g, gs⟩ :: ctx) t))
    (ht : Balanced t .red n) (hps : Balanced ps .black n) (hgs : Balanced gs c n)
    (hctx : PathBalanced ctx .black (n + 1)) :
    ∃ h' ctx' t' k, h.insBalTurn d m (treeRef m t) = (h', treeRef m t') ∧
      TreeStep m h (fill (⟨s, .red, p, ps⟩ :: ⟨d, .black, g, gs⟩ :: ctx) t) h' (fill ctx' t') ∧
      Balanced t' .red k ∧ PathBalanced ctx' .black k ∧ ctx'.length < ctx.length + 2 := by
  have hp := mapTree_fill.mp hT
  have hup := hp.up_treeRef ht.color_eq
  obtain ⟨hup', -, -, -, -, hgpath⟩ := hp.path
  obtain ⟨-, -, -, huncle, -, -⟩ := hgpath
  simp only [pathRef] at hup hup' huncle
  have huncleColor : h.color (treeRef m gs) = gs.color := by
    have hT' : MapTree h m (fill (⟨d, .black, g, gs⟩ :: ctx) (join s .red t p ps)) := hT
    exact (mapTree_fill.mp hT').color_sibling
  unfold TreeHeap.insBalTurn
  simp only [hup, hup', huncle, huncleColor]
  by_cases hred : gs.color = .red
  · obtain ⟨un, u, uf, rfl⟩ := exists_join_of_red hred d
    obtain ⟨-, hun, huf⟩ := balanced_red.mp hgs
    simp only [color_join, treeRef_join, if_true, TreeHeap.setColor_up, hup, hup']
    refine ⟨_, ctx, join d .red (join s .black t p ps) g (join d .black un u uf), n + 1,
      by rw [treeRef_join], turnRed_step hT, ?_, hctx, by omega⟩
    apply balanced_red.mpr
    exact ⟨rfl, balanced_black.mpr ⟨n, rfl, rfl, ⟨_, ht⟩, ⟨_, hps⟩⟩,
      balanced_black.mpr ⟨n, rfl, rfl, ⟨_, hun⟩, ⟨_, huf⟩⟩⟩
  · have hgs : Balanced gs .black n := by
      cases c with
      | red => exact absurd hgs.color_eq hred
      | black => exact hgs
    have hside : h.parentSide (treeRef m t) = s := hp.parentSide_eq hup
      (by rintro rfl; cases ht)
    rw [if_neg hred, hside]
    by_cases hs : s = d
    · subst hs
      simp only [ne_eq, not_true_eq_false, if_false, TreeHeap.setColor_up, hup, hup']
      refine ⟨_, _, t, n, rfl, turnOuter_step hT, ht, ?_, by simp⟩
      exact .black (balanced_red.mpr ⟨rfl, hgs, hps⟩) hctx
    · obtain rfl := Side.eq_other_of_ne hs
      obtain ⟨y, u, w, rfl⟩ := exists_join_of_red ht.color_eq d
      obtain ⟨-, hy, hw⟩ := balanced_red.mp ht
      have hinner := turnInner_step hT
      have hq := mapTree_fill.mp hinner.tree
      have houter := turnOuter_step hinner.tree
      have hupq := hq.up_join
      obtain ⟨hupq', -⟩ := hq.path
      simp only [pathRef] at hupq hupq'
      simp only [ne_eq, Side.other_ne, not_false_eq_true, if_true, TreeHeap.setColor_up, hupq, hupq']
      refine ⟨_, _, join d .red ps p y, n, by rw [treeRef_join], hinner.trans houter,
        balanced_red.mpr ⟨rfl, hps, hy⟩, ?_, by simp⟩
      exact .black (balanced_red.mpr ⟨rfl, hgs, hw⟩) hctx

theorem insBal_spec {fuel : Nat} (hT : MapTree h m (fill ctx t)) (ht : Balanced t .red n)
    (hctx : PathBalanced ctx .black n) (hfuel : ctx.length < fuel) :
    ∃ h' T' c k, h.insBal m fuel (treeRef m t) = some h' ∧ TreeStep m h (fill ctx t) h' T' ∧
      Balanced T' c k := by
  induction fuel generalizing h ctx t n with
  | zero => omega
  | succ fuel ih =>
    have hp := mapTree_fill.mp hT
    rw [TreeHeap.insBal, hp.up_treeRef ht.color_eq]
    cases hctx with
    | root =>
      rw [pathRef, hp.rootColor, if_neg (by decide)]
      exact ⟨h, _, _, n, rfl, .refl hT, ht⟩
    | black hsib hctx =>
      rw [show h.color (pathRef m (_ :: _)) = .black from hp.path.2.1, if_neg (by decide)]
      obtain ⟨k, hk⟩ := (PathBalanced.black hsib hctx).fill ht
      exact ⟨h, _, _, k, rfl, .refl hT, hk⟩
    | @red s p ps ctx n hps hctx =>
      cases hctx with
      | @black d g gs ctx c c' n hgs hctx =>
        have hT' : MapTree h m (fill (⟨d, .black, g, gs⟩ :: ctx) (join s .red t p ps)) := hT
        have hp' := mapTree_fill.mp hT'
        have hgside := hp'.parentSide_eq (by rw [treeRef_join, hp'.up_join])
          (by intro hnil; cases s <;> cases hnil)
        rw [treeRef_join] at hgside
        rw [pathRef, hp'.color_join, if_pos rfl, hgside]
        obtain ⟨h', ctx', t', k, hturn, hstep, ht', hctx', hlen⟩ :=
          insBalTurn_spec hT ht hps hgs hctx
        obtain ⟨h'', T', c'', k', hrest, hstep', hbal⟩ :=
          ih hstep.tree ht' hctx' (by simp only [List.length_cons] at hfuel; omega)
        refine ⟨h'', T', c'', k', ?_, hstep.trans hstep', hbal⟩
        simp only [pathSide, hturn]
        exact hrest

end

/-!
## Insertion

A new item is a red leaf first.
-/

open OpaFm.Lib OpaFm.Lib.RedBlack OpaFm.Lib.RedBlack.RbTree Qmaps

variable {μ ι : Type} [DecidableEq μ] [DecidableEq ι] {h : TreeHeap μ ι} {s : Qmaps μ ι} {m : μ}
  {i : ι} {t T : RbTree ι} {ctx : List (Frame ι)} {key : Nat} {res : Int}

def withLeaf (h : TreeHeap μ ι) (m : μ) (p_item p_insert_at : Ref μ ι) (side : Side) :
    TreeHeap μ ι :=
  ((((h.setChild p_item .left (.nil m)).setChild p_item .right (.nil m)).setColor p_item .red).setChild
    p_insert_at side p_item).setUp p_item p_insert_at

theorem withLeaf_cells (h : TreeHeap μ ι) (m : μ) (ctx : List (Frame ι)) (i : ι) :
    (∀ r s, (withLeaf h m (.item i) (pathRef m ctx) (pathSide ctx)).child r s =
      if r = pathRef m ctx ∧ s = pathSide ctx then .item i
      else if r = .item i then .nil m else h.child r s) ∧
    (∀ r, (withLeaf h m (.item i) (pathRef m ctx) (pathSide ctx)).up r =
      if r = .item i then pathRef m ctx else h.up r) ∧
    ∀ r, (withLeaf h m (.item i) (pathRef m ctx) (pathSide ctx)).color r =
      if r = .item i then .red else h.color r := by
  unfold withLeaf
  refine ⟨?_, fun _ => rfl, fun _ => rfl⟩
  intro r s
  simp only [TreeHeap.setUp_child, TreeHeap.setChild_child, TreeHeap.setColor_child]
  cases s <;> by_cases hr : r = .item i <;> simp [hr]

theorem withLeaf_tree (hT : MapTree h m (fill ctx .nil)) (hi : i ∉ around ctx) :
    MapTree (withLeaf h m (.item i) (pathRef m ctx) (pathSide ctx)) m
        (fill ctx (.node .red .nil i .nil)) ∧
      ∀ r, ¬Own m (fill ctx (.node .red .nil i .nil)).toList r →
        SameCell h (withLeaf h m (.item i) (pathRef m ctx) (pathSide ctx)) r := by
  have hpath : (Ref.item i : Ref μ ι) ≠ pathRef m ctx := fun heq => hi (pathRef_eq_item heq.symm)
  obtain ⟨hchild, hup, hcolor⟩ := withLeaf_cells h m ctx i
  constructor
  · apply hT.replace
    · rw [hchild, if_pos ⟨rfl, rfl⟩, treeRef]
    · refine ⟨?_, ?_, ?_, ?_, trivial, trivial⟩
      · rw [hup, if_pos rfl]
      · rw [hcolor, if_pos rfl]
      · rw [hchild, if_neg fun heq => hpath heq.1, if_pos rfl, treeRef]
      · rw [hchild, if_neg fun heq => hpath heq.1, if_pos rfl, treeRef]
    · rw [(toList_fill_perm ctx _).nodup_iff]
      simpa [toList, hi] using (mapTree_fill.mp hT).around
    · intro r hr
      have hri : r ≠ .item i := by
        rintro rfl
        rcases hr with hr | ⟨j, hj, hr⟩ <;> cases hr
        exact hi hj
      refine ⟨by rw [hup, if_neg hri], by rw [hcolor, if_neg hri], ?_⟩
      intro s' hs'
      rw [hchild, if_neg hs', if_neg hri]
    · rw [hcolor, if_neg (by simp)]
  · intro r hr
    have hri : r ≠ .item i := by
      rintro rfl
      exact hr (own_fill.mpr (.inl (.inr (.inr ⟨i, by simp [toList], rfl⟩))))
    have hrp : r ≠ pathRef m ctx := by
      rintro rfl
      exact hr own_pathRef
    refine ⟨?_, by rw [hup, if_neg hri], by rw [hcolor, if_neg hri]⟩
    ext s'
    rw [hchild, if_neg fun heq => hrp heq.1, if_neg hri]

theorem linkItem_eq (hlist : Circular s.links (.nil m) ((leading ctx ++ trailing ctx).map .item))
    (hres : ctx ≠ [] → (0 < res ↔ pathSide ctx = .left)) :
    s.linkItem m key (.item i) (pathRef m ctx) res =
      { s with
        heap := withLeaf s.heap m (.item i) (pathRef m ctx) (pathSide ctx)
        links := s.links.insertBefore (foundRef m (trailing ctx).head?) (.item i)
        key := Function.update s.key (.item i) key
        count := Function.update s.count m (s.count m + 1) } := by
  unfold linkItem withLeaf
  cases ctx with
  | nil => simp [pathRef, pathSide, trailing, foundRef]
  | cons f ctx =>
    obtain ⟨side, c, a, sib⟩ := f
    have hside := hres (List.cons_ne_nil _ _)
    cases side with
    | left =>
      have hpos : res > 0 := hside.mpr rfl
      simp [pathRef, pathSide, hpos, trailing, foundRef]
    | right =>
      have hpos : ¬res > 0 := fun hgt => by cases hside.mp hgt
      have hsplit : leading (⟨.right, c, a, sib⟩ :: ctx) ++ trailing (⟨.right, c, a, sib⟩ :: ctx) =
          (leading ctx ++ sib.toList) ++ a :: trailing ctx := by
        simp [leading, trailing]
      rw [hsplit] at hlist
      have hnext : s.links.next (.item a) = foundRef m (trailing ctx).head? := next_foundRef hlist
      simp [pathRef, pathSide, hpos, trailing, hnext]

theorem insertBefore_list (hlist : Circular s.links (.nil m) ((leading ctx ++ trailing ctx).map .item))
    (hi : i ∉ leading ctx ++ trailing ctx) :
    Circular (s.links.insertBefore (foundRef m (trailing ctx).head?) (.item i)) (.nil m)
        ((leading ctx ++ i :: trailing ctx).map .item) ∧
      ∀ r, ¬Own m (leading ctx ++ i :: trailing ctx) r →
        (s.links.insertBefore (foundRef m (trailing ctx).head?) (.item i)).next r = s.links.next r ∧
        (s.links.insertBefore (foundRef m (trailing ctx).head?) (.item i)).prev r = s.links.prev r := by
  rw [List.map_append] at hlist
  have hnew : (Ref.item i : Ref μ ι) ∉
      Ref.nil m :: ((leading ctx).map Ref.item ++ (trailing ctx).map Ref.item) := by
    simpa using hi
  obtain ⟨hcircular, houtside⟩ := hlist.insert hnew
  rw [head_refs] at hcircular houtside
  constructor
  · rwa [List.map_append, List.map_cons]
  · intro r hr
    apply houtside
    intro hmem
    apply hr
    simp only [List.mem_cons, List.mem_append, List.mem_map] at hmem
    unfold Own
    grind

theorem insertLeaf_spec {fuel : Nat} (hT : MapTree h m (fill ctx .nil))
    (hbal : ∃ n, Balanced (fill ctx (.nil : RbTree ι)) .black n) (hi : i ∉ around ctx)
    (hfuel : ctx.length < fuel) :
    ∃ h' T' n, ((withLeaf h m (.item i) (pathRef m ctx) (pathSide ctx)).insBal m fuel
        (.item i)).map (fun heap => heap.setColor (heap.child (.root m) .left) .black) = some h' ∧
      MapTree h' m T' ∧ Balanced T' .black n ∧ T'.toList = leading ctx ++ i :: trailing ctx ∧
      ∀ r, ¬Own m T'.toList r → SameCell h h' r := by
  obtain ⟨n, hbal⟩ := hbal
  obtain ⟨c, k, hnil, hctx⟩ := exists_pathBalanced hbal
  cases hnil with
  | nil =>
    obtain ⟨hleaf, houtside⟩ := withLeaf_tree hT hi
    obtain ⟨h', T', c, k, hins, hstep, hT'⟩ :=
      insBal_spec hleaf (.red .nil .nil) hctx hfuel
    have hroot := @blacken_step μ ι _ _ h' m T' [] hstep.tree
    obtain ⟨k', hblack⟩ := hT'.blacken
    have hitems : (T'.paint .black).toList = (fill ctx (.node .red .nil i .nil)).toList := by
      rw [toList_paint, hstep.items]
    refine ⟨_, _, k', ?_, hroot.tree, hblack, ?_, ?_⟩
    · rw [treeRef] at hins
      rw [hins, Option.map_some, hstep.tree.root]
    · show (T'.paint .black).toList = _
      rw [hitems, toList_fill]
      simp [toList]
    · intro r hr
      have hr' : ¬Own m (fill ctx (.node .red .nil i .nil)).toList r := by
        rw [← hitems]
        exact hr
      apply (houtside r hr').trans
      apply (hstep.outside r hr').trans
      apply hroot.outside
      show ¬Own m T'.toList r
      rw [hstep.items]
      exact hr'

theorem clQmapInsert_spec (hs : IsMap s m T) (key : Nat)
    (hi : findKey s m key T.toList = none → i ∉ T.toList) :
    (∃ j, findKey s m key T.toList = some j ∧
      s.clQmapInsert m key (.item i) = some (s, .item j)) ∨
    (findKey s m key T.toList = none ∧ ∃ s' T' l₁ l₂,
      s.clQmapInsert m key (.item i) = some (s', .item i) ∧ IsMap s' m T' ∧
      T.toList = l₁ ++ l₂ ∧ T'.toList = l₁ ++ i :: l₂ ∧
      (∀ j ∈ l₁, KeyBefore (s.keyCompare m) (s.key (.item j)) key) ∧
      (∀ j ∈ l₂, KeyBefore (s.keyCompare m) key (s.key (.item j))) ∧
      s'.key = Function.update s.key (.item i) key ∧ Untouched s s' m T'.toList) := by
  have hempty : RoomFor s m key ([] : List (Frame ι)) :=
    ⟨fun _ h => absurd h List.not_mem_nil, fun _ h => absurd h List.not_mem_nil⟩
  have hloop := @insertLoop_spec μ ι s m key _ _ T [] (s.count m + 1) hs.tree hs.sorted hempty 0
    (fun h => absurd rfl h) (by rw [hs.count]; omega)
  unfold clQmapInsert clQmapRoot
  rw [hs.tree.root]
  rcases hloop with ⟨j, hj, hsame, hloop⟩ | ⟨ctx, res, hT, hroom, hres, hloop⟩
  · left
    refine ⟨j, findKey_eq_some hs.sorted hj hsame, ?_⟩
    rw [show Ref.root m = pathRef m ([] : List (Frame ι)) from rfl, hloop]
  · right
    obtain rfl : T = fill ctx .nil := hT
    have htoList : (fill ctx (.nil : RbTree ι)).toList = leading ctx ++ trailing ctx := by
      rw [toList_fill]
      rfl
    have hnone : findKey s m key (fill ctx (.nil : RbTree ι)).toList = none := by
      rw [findKey_eq_none, htoList]
      intro j hj
      rcases List.mem_append.mp hj with hj | hj
      · exact (hroom.before j hj).not_same
      · exact fun hsame => (hroom.after j hj).not_same hsame.symm
    have hinot := hi hnone
    have haround : i ∉ around ctx := by
      rwa [(toList_fill_perm ctx _).mem_iff] at hinot
    have hlist := hs.list
    rw [htoList] at hinot hlist
    have hlength : ctx.length < s.count m + 1 + 1 := by
      have := length_le_around ctx
      have hperm := (toList_fill_perm ctx (.nil : RbTree ι)).length_eq
      rw [hs.count, hperm]
      simp only [toList, List.nil_append]
      omega
    obtain ⟨h', T', n, hins, hT', hbal, hitems, houtside⟩ :=
      insertLeaf_spec hs.tree hs.balanced haround hlength
    obtain ⟨hlist', hlinks⟩ := insertBefore_list hlist hinot
    refine ⟨hnone, ?_⟩
    rw [show Ref.root m = pathRef m ([] : List (Frame ι)) from rfl, hloop]
    simp only [linkItem_eq hlist hres, Function.update_self]
    obtain ⟨heap, hheap, rfl⟩ := Option.map_eq_some_iff.mp hins
    rw [hheap]
    refine ⟨_, T', leading ctx, trailing ctx, rfl, ⟨hT', ⟨n, hbal⟩, ?_, ?_, ?_⟩, htoList, hitems,
      hroom.before, hroom.after, rfl, ?_⟩
    · rw [hitems]
      have hsorted := hs.sorted
      rw [htoList] at hsorted
      exact sorted_insert hsorted hinot rfl rfl hroom.before hroom.after
    · rw [hitems]
      exact hlist'
    · simp [hitems, hs.count, htoList]
      omega
    · rw [hitems] at houtside ⊢
      constructor
      · exact houtside
      · exact fun r hr => (hlinks r hr).1
      · exact fun r hr => (hlinks r hr).2
      · intro r hr
        apply Function.update_of_ne
        rintro rfl
        exact hr (.inr (.inr ⟨i, by simp, rfl⟩))
      · intro m' hm'
        exact Function.update_of_ne hm' _ _
      · rfl

end OpaFm.Qmap
