import OpaFm.Qmap.Proofs.TreeCells

/-!
# Balancing after a removal

The ways through one subtree, which may be empty, pass one black node too few.  A turn changes
that place for its parent, or ends.
-/

namespace OpaFm.Qmap

section

open OpaFm.Lib OpaFm.Lib.RedBlack OpaFm.Lib.RedBlack.RbTree

variable {μ ι : Type} [DecidableEq μ] [DecidableEq ι] {h : TreeHeap μ ι} {m : μ} {s d : Side}
  {c pc : Color} {p u v z : ι} {un uf x y w a b sib t : RbTree ι} {ctx : List (Frame ι)} {n : Nat}

theorem delRed_step (hT : MapTree h m (fill (⟨d, .black, p, join d .red un u uf⟩ :: ctx) t)) :
    TreeStep m h (fill (⟨d, .black, p, join d .red un u uf⟩ :: ctx) t)
      (((h.setColor (.item u) .black).setColor (.item p) .red).rot d m (.item p))
      (fill (⟨d, .red, p, un⟩ :: ⟨d, .black, u, uf⟩ :: ctx) t) := by
  have hu := setSiblingColor_step hT .black
  have hT₁ : MapTree (h.setColor (.item u) .black) m
      (fill ctx (join d .black t p (join d .black un u uf))) := hu.tree
  have hp := setColor_step hT₁ .red
  exact (hu.trans hp).trans (rot_step hp.tree)

theorem delInner_step
    (hT : MapTree h m (fill (⟨d, pc, p, join d .black (join d .red a z b) u uf⟩ :: ctx) t)) :
    TreeStep m h (fill (⟨d, pc, p, join d .black (join d .red a z b) u uf⟩ :: ctx) t)
      (((h.setColor (.item z) .black).setColor (.item u) .red).rot d.other m (.item u))
      (fill (⟨d, pc, p, join d .black a z (join d .red b u uf)⟩ :: ctx) t) := by
  rw [fill_sibling] at hT ⊢
  rw [fill_sibling d pc p t (join d .black a z (join d .red b u uf))]
  have hT₁ : MapTree h m (fill (⟨d, .black, u, uf⟩ :: ⟨d.other, pc, p, t⟩ :: ctx)
      (join d .red a z b)) := hT
  have hz := setColor_step hT₁ .black
  have hT₂ : MapTree (h.setColor (.item z) .black) m
      (fill (⟨d.other, pc, p, t⟩ :: ctx) (join d .black (join d .black a z b) u uf)) := hz.tree
  have hu := setColor_step hT₂ .red
  have hswap : join d .red (join d .black a z b) u uf =
      join d.other .red uf u (join d.other .black b z a) := by
    rw [join_other, join_other]
  rw [hswap] at hu
  have hswap' : join d .black a z (join d .red b u uf) =
      join d.other .black (join d.other .red uf u b) z a := by
    rw [join_other, join_other]
  rw [hswap']
  exact (hz.trans hu).trans (rot_step hu.tree)

theorem delOuter_step
    (hT : MapTree h m (fill (⟨d, pc, p, join d .black un u (join s .red x v y)⟩ :: ctx) t)) :
    TreeStep m h (fill (⟨d, pc, p, join d .black un u (join s .red x v y)⟩ :: ctx) t)
      ((((h.setColor (.item u) pc).setColor (.item p) .black).setColor (.item v) .black).rot d m
        (.item p))
      (fill (⟨d, .black, p, un⟩ :: ⟨d, pc, u, join s .black x v y⟩ :: ctx) t) := by
  have hu := setSiblingColor_step hT pc
  have hT₁ : MapTree (h.setColor (.item u) pc) m
      (fill ctx (join d pc t p (join d pc un u (join s .red x v y)))) := hu.tree
  have hp := setColor_step hT₁ .black
  have hswap : fill ctx (join d .black t p (join d pc un u (join s .red x v y))) =
      fill (⟨d.other, pc, u, un⟩ :: ⟨d.other, .black, p, t⟩ :: ctx) (join s .red x v y) := by
    simp only [fill, Frame.fill, join_other]
  have hpT := hp.tree
  rw [hswap] at hpT
  have hv := setColor_step hpT .black
  rw [← hswap] at hv
  have hswap' : fill (⟨d.other, pc, u, un⟩ :: ⟨d.other, .black, p, t⟩ :: ctx) (join s .black x v y) =
      fill ctx (join d .black t p (join d pc un u (join s .black x v y))) := by
    simp only [fill, Frame.fill, join_other]
  rw [hswap'] at hv
  exact ((hu.trans hp).trans hv).trans (rot_step hv.tree)

structure DelPlace (h : TreeHeap μ ι) (m : μ) (ctx : List (Frame ι)) (t : RbTree ι) (n : Nat) :
    Prop where
  tree : MapTree h m (fill ctx t)
  up : h.up (treeRef m t) = pathRef m ctx
  short : t.color = .red ∧ Balanced (t.paint .black) .black (n + 1) ∨ Balanced t .black n
  path : PathBalanced ctx .black (n + 1)

theorem delBalRed_spec (hp : DelPlace h m (⟨d, pc, p, sib⟩ :: ctx) t n) :
    ∃ pc' sib' ctx', TreeStep m h (fill (⟨d, pc, p, sib⟩ :: ctx) t) (h.delBalRed d m (treeRef m t))
        (fill (⟨d, pc', p, sib'⟩ :: ctx') t) ∧
      DelPlace (h.delBalRed d m (treeRef m t)) m (⟨d, pc', p, sib'⟩ :: ctx') t n ∧
      Balanced sib' .black (n + 1) ∧ (pc' = .black → ctx' = ctx) := by
  have hplace := mapTree_fill.mp hp.tree
  obtain ⟨-, -, -, huncle, -, -⟩ := hplace.path
  have huncleColor := hplace.color_sibling
  simp only at huncle huncleColor
  have hup : h.up (treeRef m t) = .item p := hp.up
  unfold TreeHeap.delBalRed
  simp only [hup, huncle, huncleColor]
  by_cases hred : sib.color = .red
  · obtain ⟨un, u, uf, rfl⟩ := exists_join_of_red hred d
    simp only [color_join, if_true, treeRef_join, TreeHeap.setColor_up, hup]
    cases hp.path with
    | red hsib _ => exact absurd (hsib.color_eq) (by simp)
    | black hsib hctx =>
      obtain ⟨-, hun, huf⟩ := balanced_red.mp hsib
      have hstep := delRed_step hp.tree
      refine ⟨.red, un, _, hstep, ⟨hstep.tree, ?_, hp.short, ?_⟩, hun, nofun⟩
      · exact hstep.up_treeRef fun hnil => by subst hnil; exact hp.up
      · exact .red hun (.black huf hctx)
  · rw [if_neg hred]
    refine ⟨pc, sib, ctx, .refl hp.tree, hp, ?_, fun _ => rfl⟩
    cases hp.path with
    | red hsib _ => exact hsib
    | @black _ _ _ _ _ c' _ hsib _ =>
      cases c' with
      | red => exact absurd hsib.color_eq hred
      | black => exact hsib

theorem delBalBlack_spec (hp : DelPlace h m (⟨d, pc, p, sib⟩ :: ctx) t n)
    (ht : Balanced t .black n) (hsib : Balanced sib .black (n + 1)) :
    (∃ h' t' k, h.delBalBlack d m (treeRef m t) = (h', some (treeRef m t')) ∧
      TreeStep m h (fill (⟨d, pc, p, sib⟩ :: ctx) t) h' (fill ctx t') ∧ DelPlace h' m ctx t' k ∧
      t'.color = pc) ∨
    ∃ h' ctx' k, h.delBalBlack d m (treeRef m t) = (h', none) ∧
      TreeStep m h (fill (⟨d, pc, p, sib⟩ :: ctx) t) h' (fill ctx' t) ∧
      Balanced (fill ctx' t) .black k := by
  have hT := hp.tree
  have hup : h.up (treeRef m t) = .item p := hp.up
  obtain ⟨hpup, hpc, -, huncle, -, -⟩ := (mapTree_fill.mp hT).path
  simp only at hpup hpc huncle
  obtain ⟨un, u, uf, rfl⟩ := hsib.exists_node d
  rw [treeRef_join] at huncle
  obtain ⟨k, -, hk, ⟨cn, hun⟩, ⟨cf, huf⟩⟩ := balanced_black.mp hsib
  obtain rfl : n = k := by omega
  have hsibT := hT
  rw [fill_sibling] at hsibT
  have hsibp := mapTree_fill.mp hsibT
  unfold TreeHeap.delBalBlack
  simp only [hup, huncle, hsibp.child_near, hsibp.child_far, hsibp.color_near, hsibp.color_far]
  by_cases hcolors : uf.color ≠ .red ∧ un.color ≠ .red
  · left
    have hun : Balanced un .black n := by
      cases cn with
      | red => exact absurd hun.color_eq hcolors.2
      | black => exact hun
    have huf : Balanced uf .black n := by
      cases cf with
      | red => exact absurd huf.color_eq hcolors.1
      | black => exact huf
    have hstep := setSiblingColor_step hT .red
    have hred : Balanced (join d .red un u uf) .red n := balanced_red.mpr ⟨rfl, hun, huf⟩
    rw [if_pos hcolors]
    cases hp.path with
    | red _ hctx =>
      refine ⟨_, join d .red t p (join d .red un u uf), n, by rw [treeRef_join], hstep,
        ⟨hstep.tree, ?_, .inl ⟨color_join, ?_⟩, hctx.of_red _⟩, color_join⟩
      · rw [treeRef_join]
        exact hpup
      · rw [paint_join]
        exact balanced_black.mpr ⟨n, rfl, rfl, ⟨_, ht⟩, ⟨_, hred⟩⟩
    | black _ hctx =>
      refine ⟨_, join d .black t p (join d .red un u uf), n + 1, by rw [treeRef_join], hstep,
        ⟨hstep.tree, ?_, .inr ?_, hctx⟩, color_join⟩
      · rw [treeRef_join]
        exact hpup
      · exact balanced_black.mpr ⟨n, rfl, rfl, ⟨_, ht⟩, ⟨_, hred⟩⟩
  · right
    rw [if_neg hcolors]
    generalize hinner : (if uf.color ≠ .red then _ else h) = h₁
    obtain ⟨un', u', x, v, y, hstep, ⟨c, hun'⟩, hx, hy⟩ : ∃ un' u' x v y,
        TreeStep m h (fill (⟨d, pc, p, join d .black un u uf⟩ :: ctx) t) h₁
          (fill (⟨d, pc, p, join d .black un' u' (join d .red x v y)⟩ :: ctx) t) ∧
        (∃ c, Balanced un' c n) ∧ Balanced x .black n ∧ Balanced y .black n := by
      by_cases hred : uf.color = .red
      · obtain ⟨x, v, y, rfl⟩ := exists_join_of_red hred d
        rw [if_neg (not_not_intro hred)] at hinner
        subst hinner
        obtain ⟨-, hx, hy⟩ := balanced_red.mp huf
        exact ⟨un, u, x, v, y, .refl hT, ⟨_, hun⟩, hx, hy⟩
      · have hnear : un.color = .red := by tauto
        obtain ⟨a, z, b, rfl⟩ := exists_join_of_red hnear d
        rw [if_pos hred] at hinner
        simp only [treeRef_join] at hinner
        subst hinner
        obtain ⟨-, ha, hb⟩ := balanced_red.mp hun
        refine ⟨a, z, b, u, uf, delInner_step hT, ⟨_, ha⟩, hb, ?_⟩
        cases cf with
        | red => exact absurd huf.color_eq hred
        | black => exact huf
    have hup₁ : h₁.up (treeRef m t) = .item p :=
      hstep.up_treeRef fun hnil => by subst hnil; exact hp.up
    have hp₁ := mapTree_fill.mp hstep.tree
    obtain ⟨-, hpc₁, -, huncle₁, -, -⟩ := hp₁.path
    simp only [treeRef_join] at hpc₁ huncle₁
    have hsibT₁ := hstep.tree
    rw [fill_sibling] at hsibT₁
    have hfar₁ := (mapTree_fill.mp hsibT₁).child_far
    rw [treeRef_join] at hfar₁
    simp only [hup₁, huncle₁, hpc₁, TreeHeap.setColor_up, TreeHeap.setColor_child, hfar₁]
    have hlast := delOuter_step hstep.tree
    have hdown : Balanced (join d .black t p un') .black (n + 1) :=
      balanced_black.mpr ⟨n, rfl, rfl, ⟨_, ht⟩, ⟨_, hun'⟩⟩
    have hblack : Balanced (join d .black x v y) .black (n + 1) :=
      balanced_black.mpr ⟨n, rfl, rfl, ⟨_, hx⟩, ⟨_, hy⟩⟩
    obtain ⟨k, hk⟩ : ∃ k, Balanced (fill ctx (join d pc (join d .black t p un') u'
        (join d .black x v y))) .black k := hp.path.refill hdown hblack
    exact ⟨_, _, k, rfl, hstep.trans hlast, hk⟩

theorem delBal_spec {fuel : Nat} (hp : DelPlace h m ctx t n)
    (hfuel : t.color = .black → ctx.length < fuel) (hpos : 0 < fuel) :
    ∃ h' T' k, h.delBal m fuel (treeRef m t) = some h' ∧ TreeStep m h (fill ctx t) h' T' ∧
      Balanced T' .black k := by
  induction fuel generalizing h ctx t n with
  | zero => omega
  | succ fuel ih =>
    have hplace := mapTree_fill.mp hp.tree
    rw [TreeHeap.delBal, hplace.color_treeRef, hp.up]
    by_cases hred : t.color = .red
    · rw [if_neg fun hgo => hgo.1 hred]
      rcases hp.short with ⟨-, ht⟩ | ht
      · obtain ⟨k, hk⟩ := hp.path.fill ht
        exact ⟨_, _, k, rfl, blacken_step hp.tree, hk⟩
      · exact absurd (ht.color_eq.symm.trans hred) (by decide)
    · have ht : Balanced t .black n := hp.short.resolve_left fun hshort => hred hshort.1
      cases ctx with
      | nil =>
        rw [if_neg fun hgo => hgo.2 rfl]
        have hstep := blacken_step hp.tree
        rw [paint_eq_self ht.color_eq] at hstep
        exact ⟨_, _, n, rfl, hstep, ht⟩
      | cons f ctx =>
        obtain ⟨d, pc, p, sib⟩ := f
        rw [if_pos ⟨hred, by simp [pathRef]⟩]
        have hsib : sib ≠ .nil := by
          rintro rfl
          cases hp.path with
          | red hsib _ => cases hsib
          | black hsib _ => cases hsib
        have hside : h.parentSide (treeRef m t) = d :=
          hplace.parentSide_eq hp.up fun _ f hf => by cases hf; exact hsib
        obtain ⟨pc', sib', ctx', hstep, hp', hsib', hctx'⟩ := delBalRed_spec hp
        rw [hside]
        rcases delBalBlack_spec hp' ht hsib' with
          ⟨h', t', k, hturn, hstep', hp'', hcolor⟩ | ⟨h', ctx'', k, hturn, hstep', hbal⟩
        · have hlen : t'.color = .black → ctx'.length < fuel := by
            intro hblack
            have := hfuel ht.color_eq
            rw [hctx' (hcolor.symm.trans hblack)]
            simp only [List.length_cons] at this
            omega
          have hfuel' : 0 < fuel := by
            have := hfuel ht.color_eq
            simp only [List.length_cons] at this
            omega
          obtain ⟨h'', T', k', hrest, hstep'', hbal⟩ := ih hp'' hlen hfuel'
          refine ⟨h'', T', k', ?_, (hstep.trans hstep').trans hstep'', hbal⟩
          simp only [hturn]
          exact hrest
        · have hblack := blacken_step hstep'.tree
          rw [paint_eq_self ht.color_eq] at hblack
          refine ⟨_, _, k, ?_, (hstep.trans hstep').trans hblack, hbal⟩
          simp only [hturn]

end

/-!
## Removal

An item with at most one child is taken out, and the tree is balanced.  Then the item that was to
be removed, if it is another one, is replaced by the one that was taken out.
-/

open OpaFm.Lib OpaFm.Lib.RedBlack OpaFm.Lib.RedBlack.RbTree Qmaps

variable {μ ι : Type} [DecidableEq μ] [DecidableEq ι] {h : TreeHeap μ ι} {s : Qmaps μ ι} {m : μ}
  {c : Color} {i j : ι} {l r t T : RbTree ι} {ctx : List (Frame ι)}

theorem hangUp_tree (hT : MapTree h m (fill ctx (.node c l i r))) (ht : t = l ∨ t = r) :
    MapTree ((h.setUp (treeRef m t) (pathRef m ctx)).setChild (pathRef m ctx) (pathSide ctx)
        (treeRef m t)) m (fill ctx t) ∧
      ∀ x, ¬Own m (fill ctx (.node c l i r)).toList x →
        SameCell h ((h.setUp (treeRef m t) (pathRef m ctx)).setChild (pathRef m ctx) (pathSide ctx)
          (treeRef m t)) x := by
  have hp := mapTree_fill.mp hT
  have htree : IsTree h m (.item i) t := by
    rcases ht with rfl | rfl
    · exact hp.tree.2.2.2.2.1
    · exact hp.tree.2.2.2.2.2
  have hsub : t.toList.Sublist (node c l i r).toList := by
    rcases ht with rfl | rfl
    · exact List.sublist_append_left _ _
    · exact (List.sublist_cons_self _ _).trans (List.sublist_append_right _ _)
  have hapart : ∀ j ∈ t.toList, j ∉ around ctx := fun j hj => hp.apart j (hsub.subset hj)
  have hpath : ∀ j ∈ t.toList, (Ref.item j : Ref μ ι) ≠ pathRef m ctx :=
    fun j hj heq => hapart j hj (pathRef_eq_item heq.symm)
  constructor
  · apply hT.replace
    · simp
    · apply htree.reparent (hp.nodup.sublist hsub)
      intro j hj
      refine ⟨?_, rfl, rfl⟩
      ext s'
      simp [hpath j hj]
    · rw [(toList_fill_perm ctx t).nodup_iff, List.nodup_append']
      exact ⟨hp.nodup.sublist hsub, hp.around, fun j hj hj' => hapart j hj hj'⟩
    · intro x hx
      have hne : x ≠ treeRef m t := by
        rintro rfl
        rcases hx with hx | ⟨j, hj, hx⟩
        · exact treeRef_ne_root hx
        · exact hapart j (treeRef_eq_item hx) hj
      exact ⟨if_neg hne, rfl, fun s' hs' => if_neg hs'⟩
    · rfl
  · intro x hx
    have hne : x ≠ treeRef m t := by
      rintro rfl
      exact hx (own_fill.mpr (.inl (own_treeRef.mono fun j hj => hsub.subset hj)))
    have hnep : x ≠ pathRef m ctx := by
      rintro rfl
      exact hx own_pathRef
    refine ⟨?_, if_neg hne, rfl⟩
    ext s'
    exact if_neg fun heq => hnep heq.1

theorem unlinkItem_eq (hT : MapTree h m (fill ctx (.node c l i r))) (hone : l = .nil ∨ r = .nil) :
    ∃ t, (t = l ∨ t = r) ∧ t.toList = l.toList ++ r.toList ∧
      unlinkItem h m (.item i) =
        ((h.setUp (treeRef m t) (pathRef m ctx)).setChild (pathRef m ctx) (pathSide ctx)
          (treeRef m t), treeRef m t) := by
  have hp := mapTree_fill.mp hT
  obtain ⟨hup, -, hleft, hright, -, -⟩ := hp.tree
  have hside : h.parentSide (.item i) = pathSide ctx := hp.parentSide_eq hup nofun
  obtain ⟨hil, hir, -⟩ := nodup_join (s := .left).mp hp.nodup
  obtain ⟨t, ht, htoList, hchild⟩ : ∃ t, (t = l ∨ t = r) ∧ t.toList = l.toList ++ r.toList ∧
      (if treeRef m l ≠ .nil m then treeRef m l else treeRef m r) = treeRef m t := by
    by_cases hl : l = .nil
    · subst hl
      exact ⟨r, .inr rfl, rfl, if_neg (by simp [treeRef])⟩
    · obtain rfl := hone.resolve_left hl
      exact ⟨l, .inl rfl, by simp [toList], if_pos (by simpa using hl)⟩
  have hne : (Ref.item i : Ref μ ι) ≠ treeRef m t := by
    intro heq
    have hmem := treeRef_eq_item heq.symm
    rcases ht with rfl | rfl
    · exact hil hmem
    · exact hir hmem
  have hup' : (h.setUp (treeRef m t) (pathRef m ctx)).up (.item i) = pathRef m ctx := by
    rw [TreeHeap.setUp_up, if_neg hne, hup]
  have hside' : (h.setUp (treeRef m t) (pathRef m ctx)).parentSide (.item i) = pathSide ctx := by
    rw [← hside]
    unfold TreeHeap.parentSide
    rw [hup', hup]
    rfl
  refine ⟨t, ht, htoList, ?_⟩
  unfold unlinkItem
  simp only [hleft, hright, hchild, hup, hup', hside']

theorem unlinkBalance_spec {fuel : Nat} (hT : MapTree h m (fill ctx (.node c l i r)))
    (hbal : ∃ n, Balanced (fill ctx (.node c l i r)) .black n) (hone : l = .nil ∨ r = .nil)
    (hfuel : ctx.length < fuel) :
    ∃ h' T' n, (if (unlinkItem h m (.item i)).1.color (.item i) ≠ .red then
          (unlinkItem h m (.item i)).1.delBal m fuel (unlinkItem h m (.item i)).2
        else some (unlinkItem h m (.item i)).1) = some h' ∧
      MapTree h' m T' ∧ Balanced T' .black n ∧
      T'.toList = leading ctx ++ (l.toList ++ r.toList) ++ trailing ctx ∧
      ∀ x, ¬Own m (fill ctx (.node c l i r)).toList x → SameCell h h' x := by
  obtain ⟨n, hbal⟩ := hbal
  obtain ⟨c', k, hnode, hctx⟩ := exists_pathBalanced hbal
  obtain ⟨t, ht, htoList, hunlink⟩ := unlinkItem_eq hT hone
  obtain ⟨htree, houtside⟩ := hangUp_tree hT ht
  have hcolor : h.color (.item i) = c := (mapTree_fill.mp hT).tree.2.1
  have hitems : (fill ctx t).toList = leading ctx ++ (l.toList ++ r.toList) ++ trailing ctx := by
    rw [toList_fill, htoList]
    simp
  rw [hunlink]
  simp only [TreeHeap.setChild_color, TreeHeap.setUp_color, hcolor]
  cases hnode with
  | red hl hr =>
    have ht' : Balanced t .black k := by
      rcases ht with rfl | rfl
      · exact hl
      · exact hr
    obtain ⟨n', hn'⟩ := (hctx.of_red .black).fill ht'
    rw [if_neg (by simp)]
    exact ⟨_, _, n', rfl, htree, hn', hitems, houtside⟩
  | @black _ _ _ c₁ c₂ n hl hr =>
    have hshort : t.color = .red ∧ Balanced (t.paint .black) .black (n + 1) ∨
        Balanced t .black n := by
      have ht' : ∃ c, Balanced t c n := by
        rcases ht with rfl | rfl
        · exact ⟨_, hl⟩
        · exact ⟨_, hr⟩
      obtain ⟨c, ht'⟩ := ht'
      cases c with
      | red => exact .inl ⟨ht'.color_eq, ht'.blacken_red⟩
      | black => exact .inr ht'
    obtain ⟨h', T', n', hdel, hstep, hT'⟩ := delBal_spec
      ⟨htree, if_pos rfl, hshort, hctx⟩ (fun _ => hfuel) (Nat.zero_lt_of_lt hfuel)
    rw [if_pos (by simp)]
    refine ⟨h', T', n', hdel, hstep.tree, hT', hstep.items.trans hitems, ?_⟩
    intro x hx
    apply (houtside x hx).trans
    apply hstep.outside
    intro hown
    apply hx
    apply hown.mono
    intro a ha
    rw [hitems] at ha
    rw [toList_fill, toList]
    grind

theorem exchange_cells {x y p : Ref μ ι} {side : Side} (hup : h.up x = p)
    (hside : h.parentSide x = side) (hyx : y ≠ x) (hyp : y ≠ p) (hxp : x ≠ p) :
    (∀ r s, (exchange h x y).child r s = if r = p ∧ s = side then y
      else if r = y then h.child x s else h.child r s) ∧
    (∀ r, (exchange h x y).up r = if r = h.child x .left ∨ r = h.child x .right then y
      else if r = y then p else h.up r) ∧
    ∀ r, (exchange h x y).color r = if r = y then h.color x else h.color r := by
  subst hup hside
  unfold exchange TreeHeap.parentSide
  simp only [TreeHeap.setUp_up, TreeHeap.setUp_child, TreeHeap.setUp_color, TreeHeap.setChild_up,
    TreeHeap.setChild_child, TreeHeap.setChild_color, TreeHeap.setColor_up, TreeHeap.setColor_child,
    TreeHeap.setColor_color, Ne.symm hyx, Ne.symm hyp, hxp, if_false, false_and]
  refine ⟨?_, ?_, fun _ => trivial⟩
  · intro r s
    by_cases hr : r = y
    · cases s <;> simp [hr, hyp]
    · simp [hr]
  · intro r
    grind

theorem exchange_tree (hT : MapTree h m (fill ctx (.node c l i r)))
    (hj : j ∉ (fill ctx (.node c l i r)).toList) :
    MapTree (exchange h (.item i) (.item j)) m (fill ctx (.node c l j r)) ∧
      ∀ x, ¬Own m (j :: (fill ctx (.node c l i r)).toList) x →
        SameCell h (exchange h (.item i) (.item j)) x := by
  have hp := mapTree_fill.mp hT
  obtain ⟨hup, hcolor, hleft, hright, htl, htr⟩ := hp.tree
  have hside : h.parentSide (.item i) = pathSide ctx := hp.parentSide_eq hup nofun
  have hj' := hj
  rw [(toList_fill_perm ctx _).mem_iff, List.mem_append] at hj'
  obtain ⟨hil, hir, hnodupl, hnodupr, hlr⟩ := nodup_join (s := .left).mp hp.nodup
  simp only [toList, List.mem_append, List.mem_cons, not_or] at hj'
  obtain ⟨⟨hjl, hji, hjr⟩, hjctx⟩ := hj'
  have hjp : (Ref.item j : Ref μ ι) ≠ pathRef m ctx := fun heq => hjctx (pathRef_eq_item heq.symm)
  have hip : (Ref.item i : Ref μ ι) ≠ pathRef m ctx :=
    fun heq => hp.apart i (by simp [toList]) (pathRef_eq_item heq.symm)
  obtain ⟨hchild, hup', hcolor'⟩ := exchange_cells hup hside (by simpa using hji) hjp hip
  rw [hleft, hright] at hup'
  rw [hcolor] at hcolor'
  have hbelow : ∀ t : RbTree ι, t = l ∨ t = r → IsTree h m (.item i) t → t.toList.Nodup →
      IsTree (exchange h (.item i) (.item j)) m (.item j) t := by
    intro t ht htree hnodup
    apply htree.reparent hnodup
    intro a ha
    have hanode : a ∈ (node c l i r).toList := by
      rcases ht with rfl | rfl <;> simp [toList, ha]
    have hap : (Ref.item a : Ref μ ι) ≠ pathRef m ctx :=
      fun heq => hp.apart a hanode (pathRef_eq_item heq.symm)
    have haj : (Ref.item a : Ref μ ι) ≠ .item j := by
      rintro ⟨⟩
      rcases ht with rfl | rfl
      · exact hjl ha
      · exact hjr ha
    have hroots : (.item a = treeRef m l ∨ .item a = treeRef m r) ↔ .item a = treeRef m t := by
      rcases ht with rfl | rfl
      · exact or_iff_left fun heq => hlr a ha (treeRef_eq_item heq.symm)
      · exact or_iff_right fun heq => hlr a (treeRef_eq_item heq.symm) ha
    refine ⟨?_, by rw [hcolor', if_neg haj], ?_⟩
    · ext s'
      rw [hchild, if_neg fun heq => hap heq.1, if_neg haj]
    · rw [hup', if_neg haj]
      simp only [hroots]
  constructor
  · apply hT.replace
    · rw [hchild, if_pos ⟨rfl, rfl⟩, treeRef]
    · refine ⟨?_, ?_, ?_, ?_, hbelow l (.inl rfl) htl hnodupl, hbelow r (.inr rfl) htr hnodupr⟩
      · rw [hup', if_neg, if_pos rfl]
        rintro (heq | heq)
        · exact hjl (treeRef_eq_item heq.symm)
        · exact hjr (treeRef_eq_item heq.symm)
      · rw [hcolor', if_pos rfl]
      · rw [hchild, if_neg fun heq => hjp heq.1, if_pos rfl, hleft]
      · rw [hchild, if_neg fun heq => hjp heq.1, if_pos rfl, hright]
    · rw [(toList_fill_perm ctx _).nodup_iff, List.nodup_append']
      refine ⟨nodup_join (s := .left).mpr ⟨hjl, hjr, hnodupl, hnodupr, hlr⟩, hp.around, ?_⟩
      intro a ha ha'
      rcases (mem_join (s := .left)).mp ha with rfl | ha
      · exact hjctx ha'
      · exact hp.apart a ((mem_join (s := .left)).mpr (.inr ha)) ha'
    · intro x hx
      have hmem : ∀ a, a ∉ around ctx → x ≠ .item a := by
        rintro a ha rfl
        rcases hx with hx | ⟨b, hb, hx⟩ <;> cases hx
        exact ha hb
      have htop : ∀ t : RbTree ι, (∀ a ∈ t.toList, a ∉ around ctx) → x ≠ treeRef m t := by
        rintro t ht rfl
        rcases hx with hx | ⟨b, hb, hx⟩
        · exact treeRef_ne_root hx
        · exact ht b (treeRef_eq_item hx) hb
      have hxj := hmem j hjctx
      have hxl := htop l fun a ha => hp.apart a (by simp [toList, ha])
      have hxr := htop r fun a ha => hp.apart a (by simp [toList, ha])
      refine ⟨?_, by rw [hcolor', if_neg hxj], ?_⟩
      · rw [hup', if_neg (by tauto), if_neg hxj]
      · intro s' hs'
        rw [hchild, if_neg hs', if_neg hxj]
    · rw [hcolor', if_neg (by simp)]
  · intro x hx
    have hxj : x ≠ .item j := fun heq => hx (.inr (.inr ⟨j, List.mem_cons_self, heq⟩))
    have hx' : ¬Own m (fill ctx (.node c l i r)).toList x :=
      fun hown => hx (hown.mono fun a ha => List.mem_cons_of_mem j ha)
    have hxp : x ≠ pathRef m ctx := by
      rintro rfl
      exact hx' own_pathRef
    have htop : ∀ t : RbTree ι, (∀ a ∈ t.toList, a ∈ (node c l i r).toList) → x ≠ treeRef m t := by
      rintro t ht rfl
      exact hx' (own_fill.mpr (.inl (own_treeRef.mono ht)))
    have hxl := htop l fun a ha => by simp [toList, ha]
    have hxr := htop r fun a ha => by simp [toList, ha]
    refine ⟨?_, ?_, by rw [hcolor', if_neg hxj]⟩
    · ext s'
      rw [hchild, if_neg fun heq => hxp heq.1, if_neg hxj]
    · rw [hup', if_neg (by tauto), if_neg hxj]

theorem removeInner_spec {fuel : Nat} {items : List ι} (hT : MapTree h m (fill ctx (.node c l i r)))
    (hbal : ∃ n, Balanced (fill ctx (.node c l i r)) .black n) (hr : r.toList = j :: items)
    (hfuel : (fill ctx (.node c l i r)).toList.length < fuel) :
    ∃ h' T' n, ((if (unlinkItem h m (.item j)).1.color (.item j) ≠ .red then
          (unlinkItem h m (.item j)).1.delBal m fuel (unlinkItem h m (.item j)).2
        else some (unlinkItem h m (.item j)).1).map fun h => exchange h (.item i) (.item j)) =
        some h' ∧
      MapTree h' m T' ∧ Balanced T' .black n ∧
      T'.toList = leading ctx ++ (l.toList ++ r.toList) ++ trailing ctx ∧
      ∀ x, ¬Own m (fill ctx (.node c l i r)).toList x → SameCell h h' x := by
  obtain ⟨ctx', c', r', hsucc, hbefore, hafter⟩ := exists_fill_successor hr
  rw [hsucc] at hT hbal hfuel ⊢
  have hlength : ctx'.length < fuel := by
    have hperm := (toList_fill_perm ctx' (.node c' .nil j r')).length_eq
    have := length_le_around ctx'
    rw [List.length_append] at hperm
    omega
  obtain ⟨h₁, T₁, n, hdel, hT₁, hbal₁, hitems₁, houtside₁⟩ :=
    unlinkBalance_spec hT hbal (.inl rfl) hlength
  rw [hbefore, toList, List.nil_append, List.append_assoc, hafter] at hitems₁
  have hlist : (fill ctx' (.node c' .nil j r')).toList =
      leading ctx ++ l.toList ++ i :: j :: (items ++ trailing ctx) := by
    rw [← hsucc, toList_fill, toList, hr]
    simp
  have hnodup := hT.nodup
  rw [hlist] at hnodup
  have hj₁ : j ∉ T₁.toList := by
    rw [hitems₁]
    grind
  obtain ⟨ctx₂, c₂, l₂, r₂, rfl⟩ := exists_fill_of_mem (a := i) (t := T₁) (by simp [hitems₁])
  obtain ⟨hT₂, houtside₂⟩ := exchange_tree hT₁ hj₁
  obtain ⟨n₂, hbal₂⟩ := balanced_fill_items (b := j) ⟨n, hbal₁⟩
  refine ⟨_, _, n₂, by rw [hdel, Option.map_some], hT₂, hbal₂, ?_, ?_⟩
  · have hplace : (leading ctx₂ ++ l₂.toList) ++ i :: (r₂.toList ++ trailing ctx₂) =
        (leading ctx ++ l.toList) ++ i :: (items ++ trailing ctx) := by
      rw [toList_fill] at hitems₁
      simpa [toList] using hitems₁
    have hi₂ : i ∉ leading ctx ++ l.toList ∧ i ∉ items ++ trailing ctx := by grind
    obtain ⟨hfront, -, hback⟩ :=
      (List.append_cons_inj_of_notMem hi₂.1 hi₂.2).mp hplace.symm
    calc
      (fill ctx₂ (node c₂ l₂ j r₂)).toList =
          (leading ctx₂ ++ l₂.toList) ++ j :: (r₂.toList ++ trailing ctx₂) := by
        rw [toList_fill]
        simp [toList]
      _ = (leading ctx ++ l.toList) ++ j :: (items ++ trailing ctx) := by rw [hfront, hback]
      _ = leading ctx ++ (l.toList ++ r.toList) ++ trailing ctx := by
        rw [hr]
        simp
  · intro x hx
    apply (houtside₁ x hx).trans
    apply houtside₂
    intro hown
    apply hx
    apply hown.mono
    intro a ha
    rw [hitems₁] at ha
    rw [hlist]
    grind

theorem remove_list {l₁ l₂ : List ι}
    (hlist : Circular s.links (.nil m) ((l₁ ++ i :: l₂).map .item)) :
    Circular (s.links.remove (.item i)) (.nil m) ((l₁ ++ l₂).map .item) ∧
      ∀ r, ¬Own m (l₁ ++ i :: l₂) r → (s.links.remove (.item i)).next r = s.links.next r ∧
        (s.links.remove (.item i)).prev r = s.links.prev r := by
  rw [List.map_append, List.map_cons] at hlist
  obtain ⟨hcircular, houtside⟩ := hlist.remove
  constructor
  · rwa [List.map_append]
  · intro r hr
    apply houtside
    intro hmem
    apply hr
    simp only [List.mem_cons, List.mem_append, List.mem_map] at hmem
    unfold Own
    grind

def delItem (s : Qmaps μ ι) (m : μ) (p_item : Ref μ ι) : Ref μ ι :=
  if s.heap.child p_item .right = .nil m ∨ s.heap.child p_item .left = .nil m then p_item
  else s.clQmapNext p_item

theorem clQmapRemoveItem_eq : s.clQmapRemoveItem m (.item i) =
    (if (unlinkItem s.heap m (delItem s m (.item i))).1.color (delItem s m (.item i)) ≠ .red then
        (unlinkItem s.heap m (delItem s m (.item i))).1.delBal m (s.count m + 2)
          (unlinkItem s.heap m (delItem s m (.item i))).2
      else some (unlinkItem s.heap m (delItem s m (.item i))).1).map fun h =>
        { s with
          heap := if delItem s m (.item i) ≠ .item i then
            exchange h (.item i) (delItem s m (.item i)) else h
          links := s.links.remove (.item i)
          count := Function.update s.count m (s.count m - 1) } :=
  if_neg (by simp)

theorem clQmapRemoveItem_spec {l₁ l₂ : List ι} (hs : IsMap s m T)
    (hitems : T.toList = l₁ ++ i :: l₂) :
    ∃ s' T', s.clQmapRemoveItem m (.item i) = some s' ∧ IsMap s' m T' ∧ T'.toList = l₁ ++ l₂ ∧
      s'.key = s.key ∧ Untouched s s' m T.toList := by
  have hlist := hs.list
  have hsorted := hs.sorted
  have hnodup := hs.tree.nodup
  rw [hitems] at hlist hsorted hnodup
  obtain ⟨hlist', hlinks⟩ := remove_list hlist
  have hnext : s.clQmapNext (.item i) = foundRef m l₂.head? := next_foundRef hlist
  have hcount : T.toList.length < s.count m + 2 := by
    rw [hs.count]
    omega
  obtain ⟨ctx, c, l, r, rfl⟩ := exists_fill_of_mem (a := i) (t := T) (by simp [hitems])
  obtain ⟨-, -, hleft, hright, -, -⟩ := (mapTree_fill.mp hs.tree).tree
  have hplace : (leading ctx ++ l.toList) ++ i :: (r.toList ++ trailing ctx) = l₁ ++ i :: l₂ := by
    rw [← hitems, toList_fill]
    simp [toList]
  have hi : i ∉ l₁ ∧ i ∉ l₂ := by grind
  obtain ⟨rfl, -, rfl⟩ := (List.append_cons_inj_of_notMem hi.1 hi.2).mp hplace.symm
  have hlength : ctx.length < s.count m + 2 := by
    have hperm := (toList_fill_perm ctx (.node c l i r)).length_eq
    have := length_le_around ctx
    rw [List.length_append] at hperm
    omega
  obtain ⟨h', T', n, hremove, hT', hbal, hitems', houtside⟩ : ∃ h' T' n,
      s.clQmapRemoveItem m (.item i) = some
        { s with
          heap := h'
          links := s.links.remove (.item i)
          count := Function.update s.count m (s.count m - 1) } ∧
      MapTree h' m T' ∧ Balanced T' .black n ∧
      T'.toList = leading ctx ++ (l.toList ++ r.toList) ++ trailing ctx ∧
      ∀ x, ¬Own m (fill ctx (.node c l i r)).toList x → SameCell s.heap h' x := by
    rw [clQmapRemoveItem_eq]
    by_cases hone : r = .nil ∨ l = .nil
    · have hdel : delItem s m (.item i) = .item i := if_pos (by simpa [hleft, hright] using hone)
      obtain ⟨h', T', n, hheap, hrest⟩ :=
        unlinkBalance_spec hs.tree hs.balanced hone.symm hlength
      exact ⟨h', T', n, by rw [hdel, hheap]; simp, hrest⟩
    · obtain ⟨j, items, hr⟩ : ∃ j items, r.toList = j :: items := by
        cases r with
        | nil => exact absurd (.inl rfl) hone
        | node _ _ _ _ => exact List.exists_cons_of_ne_nil (by simp [toList])
      have hdel : delItem s m (.item i) = .item j := by
        apply (if_neg (by simpa [hleft, hright] using hone)).trans
        rw [hnext, hr]
        rfl
      obtain ⟨h', T', n, hheap, hrest⟩ := removeInner_spec hs.tree hs.balanced hr hcount
      have hji : j ≠ i := by
        rw [hr] at hnodup
        grind
      obtain ⟨h₁, hh₁, rfl⟩ := Option.map_eq_some_iff.mp hheap
      exact ⟨_, T', n, by rw [hdel, hh₁]; simp [hji], hrest⟩
  have hkept : T'.toList = leading ctx ++ l.toList ++ (r.toList ++ trailing ctx) := by
    rw [hitems']
    simp
  refine ⟨_, T', hremove, ⟨hT', ⟨n, hbal⟩, ?_, ?_, ?_⟩, hkept, rfl, ?_⟩
  · rw [hkept]
    apply sorted_congr (fun _ _ => rfl) rfl
    exact hsorted.sublist ((List.sublist_cons_self i _).append_left _)
  · rw [hkept]
    exact hlist'
  · simp only [Function.update_self]
    rw [hs.count, hitems, hkept]
    simp only [List.length_append, List.length_cons]
    omega
  · rw [hitems] at houtside ⊢
    constructor
    · exact houtside
    · exact fun x hx => (hlinks x hx).1
    · exact fun x hx => (hlinks x hx).2
    · exact fun _ _ => rfl
    · intro m' hm'
      exact Function.update_of_ne hm' _ _
    · rfl

end OpaFm.Qmap
