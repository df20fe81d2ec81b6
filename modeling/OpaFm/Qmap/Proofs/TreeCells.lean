import OpaFm.Qmap.QuickMap
import OpaFm.Qmap.OrderedMap
import Mathlib.Data.List.Perm.Basic

/-!
# The tree in the memory

What the pointers say of a tree is stated for the whole of it and taken apart at the place that
an operation works on: the subtree there, and the way up to it.
-/

namespace OpaFm.Qmap

section

open OpaFm.Lib OpaFm.Lib.RedBlack OpaFm.Lib.RedBlack.RbTree

variable {μ ι : Type}

def treeRef (m : μ) : RbTree ι → Ref μ ι
  | .nil => .nil m
  | .node _ _ i _ => .item i

/-- The items of a subtree below `p_up` are linked as it says. -/
def IsTree (h : TreeHeap μ ι) (m : μ) : Ref μ ι → RbTree ι → Prop
  | _, .nil => True
  | p_up, .node c l i r =>
    h.up (.item i) = p_up ∧ h.color (.item i) = c ∧
      h.child (.item i) .left = treeRef m l ∧ h.child (.item i) .right = treeRef m r ∧
      IsTree h m (.item i) l ∧ IsTree h m (.item i) r

def pathRef (m : μ) : List (Frame ι) → Ref μ ι
  | [] => .root m
  | f :: _ => .item f.item

def pathSide : List (Frame ι) → Side
  | [] => .left
  | f :: _ => f.side

def IsPath (h : TreeHeap μ ι) (m : μ) : List (Frame ι) → Ref μ ι → Prop
  | [], x => h.child (.root m) .left = x
  | f :: ctx, x =>
    h.up (.item f.item) = pathRef m ctx ∧ h.color (.item f.item) = f.color ∧
      h.child (.item f.item) f.side = x ∧
      h.child (.item f.item) f.side.other = treeRef m f.sibling ∧
      IsTree h m (.item f.item) f.sibling ∧ IsPath h m ctx (.item f.item)

structure MapTree (h : TreeHeap μ ι) (m : μ) (T : RbTree ι) : Prop where
  nodup : T.toList.Nodup
  root : h.child (.root m) .left = treeRef m T
  tree : IsTree h m (.root m) T
  rootUp : h.up (.root m) = .root m
  rootColor : h.color (.root m) = .black
  nilColor : h.color (.nil m) = .black

variable {h h' : TreeHeap μ ι} {m : μ} {s : Side} {c c' : Color} {i : ι} {x p p' : Ref μ ι}
  {near far t t' T : RbTree ι} {ctx : List (Frame ι)} {f : Frame ι}

@[simp] theorem treeRef_join : treeRef m (join s c near i far) = .item i := by cases s <;> rfl

@[simp] theorem treeRef_paint : treeRef m (t.paint c) = treeRef m t := by cases t <;> rfl

theorem treeRef_ne_root {m' : μ} : treeRef m t ≠ .root m' := by cases t <;> simp [treeRef]

theorem treeRef_eq_item (h : treeRef m t = .item i) : i ∈ t.toList := by
  cases t with
  | nil => cases h
  | node c l j r =>
    cases h
    simp [toList]

@[simp] theorem treeRef_eq_nil : treeRef m t = .nil m ↔ t = .nil := by cases t <;> simp [treeRef]

theorem pathRef_eq_item (h : pathRef m ctx = .item i) : i ∈ around ctx := by
  cases ctx with
  | nil => cases h
  | cons f ctx =>
    cases h
    simp [around]

theorem isTree_join : IsTree h m p (join s c near i far) ↔
    h.up (.item i) = p ∧ h.color (.item i) = c ∧ h.child (.item i) s = treeRef m near ∧
      h.child (.item i) s.other = treeRef m far ∧ IsTree h m (.item i) near ∧
      IsTree h m (.item i) far := by
  cases s <;> simp only [join, IsTree, Side.other]
  tauto

/-! ## What other cells hold does not matter -/

def SameCell (h h' : TreeHeap μ ι) (r : Ref μ ι) : Prop :=
  h'.child r = h.child r ∧ h'.up r = h.up r ∧ h'.color r = h.color r

theorem IsTree.congr (ht : IsTree h m p t) (hcells : ∀ i ∈ t.toList, SameCell h h' (.item i)) :
    IsTree h' m p t := by
  induction t generalizing p with
  | nil => trivial
  | node c l i r ihl ihr =>
    obtain ⟨hup, hcolor, hleft, hright, hl, hr⟩ := ht
    obtain ⟨hchild, hup', hcolor'⟩ := hcells i (by simp [toList])
    refine ⟨hup'.trans hup, hcolor'.trans hcolor, by rw [hchild, hleft], by rw [hchild, hright],
      ?_, ?_⟩
    · exact ihl hl fun j hj => hcells j (List.mem_append_left _ hj)
    · exact ihr hr fun j hj => hcells j (List.mem_append_right _ (List.mem_cons_of_mem _ hj))

theorem IsTree.reparent [DecidableEq μ] [DecidableEq ι] (ht : IsTree h m p t) (hnodup : t.toList.Nodup)
    (hcells : ∀ i ∈ t.toList, h'.child (.item i) = h.child (.item i) ∧
      h'.color (.item i) = h.color (.item i) ∧
        h'.up (.item i) = if .item i = treeRef m t then p' else h.up (.item i)) :
    IsTree h' m p' t := by
  cases t with
  | nil => trivial
  | node c l i r =>
    obtain ⟨-, hcolor, hleft, hright, hl, hr⟩ := ht
    obtain ⟨hchild, hcolor', hup⟩ := hcells i (by simp [toList])
    have hperm := @toList_join_perm ι .left c l r i
    have hi := (List.nodup_cons.mp (hperm.nodup_iff.mp hnodup)).1
    have hbelow : ∀ j ∈ l.toList ++ r.toList, SameCell h h' (.item j) := by
      intro j hj
      obtain ⟨hchild, hcolor, hup⟩ := hcells j (hperm.mem_iff.mpr (List.mem_cons_of_mem _ hj))
      have hne : (Ref.item j : Ref μ ι) ≠ treeRef m (.node c l i r) := by
        rintro ⟨⟩
        exact hi hj
      exact ⟨hchild, by rw [hup, if_neg hne], hcolor⟩
    refine ⟨hup.trans (if_pos rfl), hcolor'.trans hcolor, by rw [hchild, hleft],
      by rw [hchild, hright], ?_, ?_⟩
    · exact hl.congr fun j hj => hbelow j (List.mem_append_left _ hj)
    · exact hr.congr fun j hj => hbelow j (List.mem_append_right _ hj)

theorem IsPath.congr (hctx : IsPath h m ctx x)
    (hroot : h'.child (.root m) .left = h.child (.root m) .left)
    (hcells : ∀ i ∈ around ctx, SameCell h h' (.item i)) : IsPath h' m ctx x := by
  induction ctx generalizing x with
  | nil => exact hroot.trans hctx
  | cons f ctx ih =>
    obtain ⟨hup, hcolor, hchild, hsibling, htree, hctx⟩ := hctx
    obtain ⟨hchild', hup', hcolor'⟩ := hcells f.item (by simp [around])
    refine ⟨hup'.trans hup, hcolor'.trans hcolor, by rw [hchild', hchild],
      by rw [hchild', hsibling], ?_, ?_⟩
    · exact htree.congr fun j hj => hcells j (by simp [around, hj])
    · exact ih hctx fun j hj => hcells j (by simp [around, hj])

theorem IsPath.replace (hctx : IsPath h m ctx x) (hnodup : (around ctx).Nodup)
    (hslot : h'.child (pathRef m ctx) (pathSide ctx) = p)
    (hothers : ∀ r, (r = .root m ∨ ∃ i ∈ around ctx, r = .item i) →
      h'.up r = h.up r ∧ h'.color r = h.color r ∧
        ∀ s, ¬(r = pathRef m ctx ∧ s = pathSide ctx) → h'.child r s = h.child r s) :
    IsPath h' m ctx p := by
  cases ctx with
  | nil => exact hslot
  | cons f ctx =>
    obtain ⟨hup, hcolor, hchild, hsibling, htree, hctx⟩ := hctx
    rw [around, List.nodup_cons] at hnodup
    have hne : ∀ j, j ∈ f.sibling.toList ++ around ctx →
        (Ref.item j : Ref μ ι) ≠ pathRef m (f :: ctx) := by
      rintro j hj heq
      cases heq
      exact hnodup.1 hj
    have hsame : ∀ j ∈ f.sibling.toList ++ around ctx, SameCell h h' (.item j) := by
      intro j hj
      obtain ⟨hup', hcolor', hchild'⟩ := hothers (.item j)
        (.inr ⟨j, by rw [around]; exact List.mem_cons_of_mem _ hj, rfl⟩)
      refine ⟨?_, hup', hcolor'⟩
      funext s
      exact hchild' s fun heq => hne j hj heq.1
    obtain ⟨hup', hcolor', hchild'⟩ := hothers (.item f.item) (.inr ⟨f.item, by simp [around], rfl⟩)
    obtain ⟨-, -, hroot⟩ := hothers (.root m) (.inl rfl)
    refine ⟨hup'.trans hup, hcolor'.trans hcolor, hslot, ?_, ?_, ?_⟩
    · exact (hchild' _ fun heq => Side.other_ne _ heq.2).trans hsibling
    · exact htree.congr fun j hj => hsame j (List.mem_append_left _ hj)
    · apply hctx.congr
      · exact hroot _ fun heq => by simp [pathRef] at heq
      · exact fun j hj => hsame j (List.mem_append_right _ hj)

/-! ## A place in the tree -/

theorem isTree_fill : h.child (.root m) .left = treeRef m (fill ctx t) ∧
    IsTree h m (.root m) (fill ctx t) ↔
      IsPath h m ctx (treeRef m t) ∧ IsTree h m (pathRef m ctx) t := by
  induction ctx generalizing t with
  | nil => rfl
  | cons f ctx ih =>
    rw [fill, ih]
    simp only [IsPath, Frame.fill, treeRef_join, isTree_join, pathRef]
    tauto

structure AtPlace (h : TreeHeap μ ι) (m : μ) (ctx : List (Frame ι)) (t : RbTree ι) : Prop where
  path : IsPath h m ctx (treeRef m t)
  tree : IsTree h m (pathRef m ctx) t
  nodup : t.toList.Nodup
  around : (around ctx).Nodup
  apart : ∀ i ∈ t.toList, i ∉ RedBlack.around ctx
  rootUp : h.up (.root m) = .root m
  rootColor : h.color (.root m) = .black
  nilColor : h.color (.nil m) = .black

theorem mapTree_fill : MapTree h m (fill ctx t) ↔ AtPlace h m ctx t := by
  constructor
  · rintro ⟨hnodup, hroot, htree, hrootUp, hrootColor, hnilColor⟩
    obtain ⟨hctx, ht⟩ := isTree_fill.mp ⟨hroot, htree⟩
    rw [(toList_fill_perm ctx t).nodup_iff, List.nodup_append'] at hnodup
    exact ⟨hctx, ht, hnodup.1, hnodup.2.1, fun i hi hi' => hnodup.2.2 hi hi', hrootUp, hrootColor,
      hnilColor⟩
  · rintro ⟨hctx, ht, hnodup, haround, hapart, hrootUp, hrootColor, hnilColor⟩
    obtain ⟨hroot, htree⟩ := isTree_fill.mpr ⟨hctx, ht⟩
    refine ⟨?_, hroot, htree, hrootUp, hrootColor, hnilColor⟩
    rw [(toList_fill_perm ctx t).nodup_iff, List.nodup_append']
    exact ⟨hnodup, haround, fun i hi hi' => hapart i hi hi'⟩

theorem MapTree.replace (hT : MapTree h m (fill ctx t))
    (hslot : h'.child (pathRef m ctx) (pathSide ctx) = treeRef m t')
    (htree : IsTree h' m (pathRef m ctx) t') (hnodup : (fill ctx t').toList.Nodup)
    (hothers : ∀ r, (r = .root m ∨ ∃ i ∈ around ctx, r = .item i) →
      h'.up r = h.up r ∧ h'.color r = h.color r ∧
        ∀ s, ¬(r = pathRef m ctx ∧ s = pathSide ctx) → h'.child r s = h.child r s)
    (hnil : h'.color (.nil m) = h.color (.nil m)) : MapTree h' m (fill ctx t') := by
  have hp := mapTree_fill.mp hT
  obtain ⟨hroot, htree'⟩ :=
    isTree_fill.mpr ⟨hp.path.replace hp.around hslot hothers, htree⟩
  obtain ⟨hup, hcolor, -⟩ := hothers (.root m) (.inl rfl)
  exact ⟨hnodup, hroot, htree', hup.trans hT.rootUp, hcolor.trans hT.rootColor,
    hnil.trans hT.nilColor⟩

theorem AtPlace.up_join (hp : AtPlace h m ctx (join s c near i far)) :
    h.up (.item i) = pathRef m ctx := (isTree_join.mp hp.tree).1

theorem AtPlace.color_join (hp : AtPlace h m ctx (join s c near i far)) :
    h.color (.item i) = c := (isTree_join.mp hp.tree).2.1

theorem AtPlace.child_near (hp : AtPlace h m ctx (join s c near i far)) :
    h.child (.item i) s = treeRef m near := (isTree_join.mp hp.tree).2.2.1

theorem AtPlace.child_far (hp : AtPlace h m ctx (join s c near i far)) :
    h.child (.item i) s.other = treeRef m far := (isTree_join.mp hp.tree).2.2.2.1

theorem AtPlace.up_treeRef (hp : AtPlace h m ctx t) (ht : t.color = .red) :
    h.up (treeRef m t) = pathRef m ctx := by
  cases t with
  | nil => cases ht
  | node c l i r => exact hp.tree.1

theorem IsTree.color_treeRef (ht : IsTree h m p t) (hnil : h.color (.nil m) = .black) :
    h.color (treeRef m t) = t.color := by
  cases t with
  | nil => exact hnil
  | node c l i r => exact ht.2.1

theorem AtPlace.color_treeRef (hp : AtPlace h m ctx t) : h.color (treeRef m t) = t.color :=
  hp.tree.color_treeRef hp.nilColor

theorem AtPlace.color_near (hp : AtPlace h m ctx (join s c near i far)) :
    h.color (treeRef m near) = near.color :=
  (isTree_join.mp hp.tree).2.2.2.2.1.color_treeRef hp.nilColor

theorem AtPlace.color_far (hp : AtPlace h m ctx (join s c near i far)) :
    h.color (treeRef m far) = far.color :=
  (isTree_join.mp hp.tree).2.2.2.2.2.color_treeRef hp.nilColor

theorem AtPlace.color_sibling (hp : AtPlace h m (f :: ctx) t) :
    h.color (treeRef m f.sibling) = f.sibling.color :=
  hp.path.2.2.2.2.1.color_treeRef hp.nilColor

def Own (m : μ) (items : List ι) (r : Ref μ ι) : Prop :=
  r = .root m ∨ r = .nil m ∨ ∃ i ∈ items, r = .item i

theorem own_fill {r : Ref μ ι} : Own m (fill ctx t).toList r ↔
    Own m t.toList r ∨ ∃ i ∈ around ctx, r = .item i := by
  simp only [Own, (toList_fill_perm ctx t).mem_iff, List.mem_append]
  grind

theorem Own.mono {items items' : List ι} {r : Ref μ ι} (h : Own m items r)
    (hsub : ∀ i ∈ items, i ∈ items') : Own m items' r := by
  rcases h with h | h | ⟨i, hi, h⟩
  · exact .inl h
  · exact .inr (.inl h)
  · exact .inr (.inr ⟨i, hsub i hi, h⟩)

theorem own_treeRef : Own m t.toList (treeRef m t) := by
  cases t with
  | nil => exact .inr (.inl rfl)
  | node c l i r => exact .inr (.inr ⟨i, by simp [toList], rfl⟩)

theorem own_pathRef : Own m (fill ctx t).toList (pathRef m ctx) := by
  apply own_fill.mpr
  cases ctx with
  | nil => exact .inl (.inl rfl)
  | cons f ctx => exact .inr ⟨f.item, by simp [around], rfl⟩

theorem item_ne_pathRef {j : ι} (hj : j ∉ around ctx) : (Ref.item j : Ref μ ι) ≠ pathRef m ctx :=
  fun heq => hj (pathRef_eq_item heq.symm)

theorem item_ne_treeRef {j : ι} (hj : j ∉ t.toList) : (Ref.item j : Ref μ ι) ≠ treeRef m t :=
  fun heq => hj (treeRef_eq_item heq.symm)

/-! ## Steps -/

structure TreeStep (m : μ) (h : TreeHeap μ ι) (T : RbTree ι) (h' : TreeHeap μ ι) (T' : RbTree ι) :
    Prop where
  tree : MapTree h' m T'
  items : T'.toList = T.toList
  outside : ∀ r, ¬Own m T.toList r → SameCell h h' r
  nilUp : h'.up (.nil m) = h.up (.nil m)

theorem TreeStep.refl (hT : MapTree h m T) : TreeStep m h T h T :=
  ⟨hT, rfl, fun _ _ => ⟨rfl, rfl, rfl⟩, rfl⟩

theorem SameCell.trans {h₁ h₂ h₃ : TreeHeap μ ι} {r : Ref μ ι} (h₁₂ : SameCell h₁ h₂ r)
    (h₂₃ : SameCell h₂ h₃ r) : SameCell h₁ h₃ r :=
  ⟨h₂₃.1.trans h₁₂.1, h₂₃.2.1.trans h₁₂.2.1, h₂₃.2.2.trans h₁₂.2.2⟩

theorem TreeStep.trans {h₁ h₂ h₃ : TreeHeap μ ι} {T₁ T₂ T₃ : RbTree ι}
    (h₁₂ : TreeStep m h₁ T₁ h₂ T₂) (h₂₃ : TreeStep m h₂ T₂ h₃ T₃) : TreeStep m h₁ T₁ h₃ T₃ where
  tree := h₂₃.tree
  items := h₂₃.items.trans h₁₂.items
  outside r hr := (h₁₂.outside r hr).trans (h₂₃.outside r (by rw [h₁₂.items]; exact hr))
  nilUp := h₂₃.nilUp.trans h₁₂.nilUp

theorem TreeStep.up_treeRef (hstep : TreeStep m h T h' (fill ctx t))
    (hnil : t = .nil → h.up (.nil m) = pathRef m ctx) : h'.up (treeRef m t) = pathRef m ctx := by
  cases t with
  | nil => exact hstep.nilUp.trans (hnil rfl)
  | node c l i r => exact (mapTree_fill.mp hstep.tree).tree.1

end

/-!
## Writes to the tree

Recoloring and rotation at a place of the tree.
-/

section

open OpaFm.Lib OpaFm.Lib.RedBlack OpaFm.Lib.RedBlack.RbTree

variable {μ ι : Type} [DecidableEq μ] [DecidableEq ι] {h h' : TreeHeap μ ι} {m : μ} {s d : Side}
  {c c' c₁ c₂ : Color} {i a b : ι} {near far t x y w : RbTree ι} {ctx : List (Frame ι)} {f : Frame ι}

theorem AtPlace.parentSide_eq (hp : AtPlace h m ctx t)
    (hup : h.up (treeRef m t) = pathRef m ctx)
    (hsibling : t = .nil → ∀ f ∈ ctx.head?, f.sibling ≠ .nil) :
    h.parentSide (treeRef m t) = pathSide ctx := by
  unfold TreeHeap.parentSide
  rw [hup]
  cases ctx with
  | nil => exact if_pos hp.path
  | cons f ctx =>
    obtain ⟨-, -, hchild, hother, -⟩ := hp.path
    obtain ⟨side, c, a, sib⟩ := f
    cases side with
    | left => exact if_pos hchild
    | right =>
      apply if_neg
      show h.child (.item a) .left ≠ treeRef m t
      rw [show h.child (.item a) .left = treeRef m sib from hother]
      intro heq
      cases t with
      | nil => exact hsibling rfl _ rfl (treeRef_eq_nil.mp heq)
      | node _ _ i _ =>
        apply hp.apart i (by simp [toList])
        simp [RedBlack.around, treeRef_eq_item heq]

/-! ### Colors -/

theorem setColor_step (hT : MapTree h m (fill ctx (join s c near i far))) (c' : Color) :
    TreeStep m h (fill ctx (join s c near i far)) (h.setColor (.item i) c')
      (fill ctx (join s c' near i far)) := by
  have hp := mapTree_fill.mp hT
  obtain ⟨hup, -, hnear, hfar, htnear, htfar⟩ := isTree_join.mp hp.tree
  obtain ⟨hinear, hifar, -⟩ := nodup_join.mp hp.nodup
  have hsame : ∀ r : Ref μ ι, r ≠ .item i → SameCell h (h.setColor (.item i) c') r :=
    fun r hr => ⟨rfl, rfl, if_neg hr⟩
  have hitems : (join s c' near i far).toList = (join s c near i far).toList :=
    toList_join_congr rfl rfl
  constructor
  · apply mapTree_fill.mpr
    constructor
    · rw [treeRef_join]
      have hpath := hp.path
      rw [treeRef_join] at hpath
      have hroot : (h.setColor (.item i) c').child (.root m) .left = h.child (.root m) .left := rfl
      apply hpath.congr hroot
      intro j hj
      apply hsame
      rintro ⟨⟩
      exact hp.apart i (mem_join.mpr (.inl rfl)) hj
    · apply isTree_join.mpr
      refine ⟨hup, if_pos rfl, hnear, hfar, ?_, ?_⟩
      · apply htnear.congr
        intro j hj
        apply hsame
        rintro ⟨⟩
        exact hinear hj
      · apply htfar.congr
        intro j hj
        apply hsame
        rintro ⟨⟩
        exact hifar hj
    · rw [hitems]
      exact hp.nodup
    · exact hp.around
    · rw [hitems]
      exact hp.apart
    · exact hp.rootUp
    · simpa using hp.rootColor
    · simpa using hp.nilColor
  · exact toList_fill_congr hitems
  · intro r hr
    apply hsame
    rintro rfl
    exact hr (own_fill.mpr (.inl (.inr (.inr ⟨i, mem_join.mpr (.inl rfl), rfl⟩))))
  · rfl

theorem setSiblingColor_step (hT : MapTree h m (fill (⟨d, c₁, a, join s c near i far⟩ :: ctx) t))
    (c' : Color) :
    TreeStep m h (fill (⟨d, c₁, a, join s c near i far⟩ :: ctx) t) (h.setColor (.item i) c')
      (fill (⟨d, c₁, a, join s c' near i far⟩ :: ctx) t) := by
  rw [fill_sibling] at hT ⊢
  rw [fill_sibling d]
  exact setColor_step hT c'

theorem blacken_step (hT : MapTree h m (fill ctx t)) :
    TreeStep m h (fill ctx t) (h.setColor (treeRef m t) .black) (fill ctx (t.paint .black)) := by
  cases t with
  | nil =>
    have heq : h.setColor (.nil m) .black = h := by
      unfold TreeHeap.setColor
      congr 1
      ext r
      split
      · next hr => rw [hr, (mapTree_fill.mp hT).nilColor]
      · rfl
    show TreeStep m h (fill ctx .nil) (h.setColor (.nil m) .black) (fill ctx .nil)
    rw [heq]
    exact .refl hT
  | node c l i r => exact setColor_step (s := .left) hT .black

/-! ### Rotation -/

theorem rot_cells {p q r y : Ref μ ι} {s : Side} (hq : h.child p d.other = q) (hr : h.up p = r)
    (hs : h.parentSide p = s) (hy : h.child q d = y) (hqp : q ≠ p) (hqr : q ≠ r) :
    (∀ r' s', (h.rot d m p).child r' s' =
      if r' = q ∧ s' = d then p else if r' = p ∧ s' = d.other then y
      else if r' = r ∧ s' = s then q else h.child r' s') ∧
    (∀ r', (h.rot d m p).up r' =
      if r' = p then q else if r' = y ∧ y ≠ .nil m then p else if r' = q then r else h.up r') ∧
    (h.rot d m p).color = h.color := by
  subst hq hr hs hy
  simp only [TreeHeap.rot, TreeHeap.setChild_child, TreeHeap.setUp_child, hqp, hqr, false_and,
    if_false]
  split <;> simp_all

structure Rotated (h h' : TreeHeap μ ι) (m : μ) (d : Side) (ctx : List (Frame ι)) (a b : ι)
    (y : RbTree ι) : Prop where
  child : ∀ r' s', h'.child r' s' =
    if r' = .item b ∧ s' = d then .item a else if r' = .item a ∧ s' = d.other then treeRef m y
    else if r' = pathRef m ctx ∧ s' = pathSide ctx then .item b else h.child r' s'
  up : ∀ r', h'.up r' =
    if r' = .item a then .item b else if r' = treeRef m y ∧ treeRef m y ≠ .nil m then .item a
    else if r' = .item b then pathRef m ctx else h.up r'
  color : h'.color = h.color

theorem AtPlace.rotated (hp : AtPlace h m ctx (join d c₁ x a (join d c₂ y b w))) :
    Rotated h (h.rot d m (.item a)) m d ctx a b y := by
  have hside := hp.parentSide_eq (by rw [treeRef_join, hp.up_join])
    (fun hnil => by cases d <;> cases hnil)
  rw [treeRef_join] at hside
  have hfar := hp.child_far
  rw [treeRef_join] at hfar
  obtain ⟨-, -, hnear, -⟩ := isTree_join.mp (isTree_join.mp hp.tree).2.2.2.2.2
  obtain ⟨-, hafar, -⟩ := nodup_join.mp hp.nodup
  simp only [mem_join, not_or] at hafar
  have hb : b ∉ RedBlack.around ctx := hp.apart b (by simp only [mem_join]; tauto)
  obtain ⟨hchild, hup, hcolor⟩ := rot_cells (m := m) hfar hp.up_join hside hnear
    (by simpa using Ne.symm hafar.1) (item_ne_pathRef hb)
  exact ⟨hchild, hup, hcolor⟩

theorem Rotated.sameCell (hrot : Rotated h h' m d ctx a b y) {j : ι} (hja : j ≠ a) (hjb : j ≠ b)
    (hjy : j ∉ y.toList) (hjctx : j ∉ around ctx) : SameCell h h' (.item j) := by
  refine ⟨?_, ?_, by rw [hrot.color]⟩
  · ext s'
    rw [hrot.child]
    simp [hja, hjb, item_ne_pathRef hjctx]
  · rw [hrot.up]
    simp [hja, hjb, item_ne_treeRef hjy]

theorem Rotated.isTree (hrot : Rotated h h' m d ctx a b y)
    (hp : AtPlace h m ctx (join d c₁ x a (join d c₂ y b w))) :
    IsTree h' m (pathRef m ctx) (join d c₂ (join d c₁ x a y) b w) := by
  obtain ⟨-, hcolor, hnear, -, hx, hb⟩ := isTree_join.mp hp.tree
  obtain ⟨-, hcolorb, -, hfarb, hy, hw⟩ := isTree_join.mp hb
  obtain ⟨hax, hafar, -, hnodupb, hxfar⟩ := nodup_join.mp hp.nodup
  obtain ⟨hby, hbw, hnodupy, -, hyw⟩ := nodup_join.mp hnodupb
  simp only [mem_join, not_or] at hafar hxfar
  obtain ⟨hab, hay, haw⟩ := hafar
  have hapart := hp.apart
  simp only [mem_join] at hapart
  have hpatha := item_ne_pathRef (m := m) (hapart a (by tauto))
  have hpathb := item_ne_pathRef (m := m) (hapart b (by tauto))
  simp only [isTree_join, treeRef_join, hrot.child, hrot.up, hrot.color]
  refine ⟨?_, hcolorb, ?_, ?_, ⟨?_, hcolor, ?_, ?_, ?_, ?_⟩, ?_⟩
  · simp [item_ne_treeRef hby, Ne.symm hab]
  · simp
  · simp [Ne.symm hab, hpathb, hfarb]
  · simp
  · simp [hab, hpatha, hnear]
  · simp [hab]
  · apply hx.congr
    intro j hj
    have := hxfar j hj
    exact hrot.sameCell (fun heq => hax (heq ▸ hj)) this.1 this.2.1 (hapart j (by tauto))
  · apply hy.reparent hnodupy
    intro j hj
    have hja : j ≠ a := fun heq => hay (heq ▸ hj)
    have hjb : j ≠ b := fun heq => hby (heq ▸ hj)
    refine ⟨?_, by rw [hrot.color], ?_⟩
    · ext s'
      simp [hrot.child, hja, hjb, item_ne_pathRef (hapart j (by tauto))]
    · rw [hrot.up]
      by_cases heq : (Ref.item j : Ref μ ι) = treeRef m y
      · simp [← heq, hja]
      · simp [heq, hja, hjb]
  · apply hw.congr
    intro j hj
    exact hrot.sameCell (fun heq => haw (heq ▸ hj)) (fun heq => hbw (heq ▸ hj))
      (fun hjy => hyw j hjy hj) (hapart j (by tauto))

theorem Rotated.elsewhere (hrot : Rotated h h' m d ctx a b y)
    (hp : AtPlace h m ctx (join d c₁ x a (join d c₂ y b w))) {r : Ref μ ι}
    (hr : r = .root m ∨ ∃ j ∈ around ctx, r = .item j) :
    h'.up r = h.up r ∧ h'.color r = h.color r ∧
      ∀ s, ¬(r = pathRef m ctx ∧ s = pathSide ctx) → h'.child r s = h.child r s := by
  have hapart := hp.apart
  simp only [mem_join] at hapart
  have hra : r ≠ .item a := by
    rintro rfl
    rcases hr with hr | ⟨j, hj, hr⟩ <;> cases hr
    exact hapart a (by tauto) hj
  have hrb : r ≠ .item b := by
    rintro rfl
    rcases hr with hr | ⟨j, hj, hr⟩ <;> cases hr
    exact hapart b (by tauto) hj
  have hry : r ≠ treeRef m y := by
    rintro rfl
    rcases hr with hr | ⟨j, hj, hr⟩
    · exact treeRef_ne_root hr
    · exact hapart j (by simp [treeRef_eq_item hr]) hj
  refine ⟨by simp [hrot.up, hra, hrb, hry], by rw [hrot.color], ?_⟩
  intro s' hs'
  simp only [hrot.child, hra, hrb, hs', false_and, if_false]

theorem Rotated.outside (hrot : Rotated h h' m d ctx a b y) {r : Ref μ ι}
    (hr : ¬Own m (fill ctx (join d c₁ x a (join d c₂ y b w))).toList r) : SameCell h h' r := by
  have hrp : r ≠ pathRef m ctx := by
    rintro rfl
    exact hr own_pathRef
  have hritem : ∀ j ∈ (join d c₁ x a (join d c₂ y b w)).toList, r ≠ .item j :=
    fun j hj heq => hr (own_fill.mpr (.inl (.inr (.inr ⟨j, hj, heq⟩))))
  simp only [mem_join] at hritem
  have hra := hritem a (.inl rfl)
  have hrb := hritem b (.inr (.inr (.inl rfl)))
  have hry : ¬(r = treeRef m y ∧ treeRef m y ≠ .nil m) := by
    rintro ⟨rfl, hy⟩
    rcases own_treeRef (m := m) (t := y) with heq | heq | ⟨j, hj, heq⟩
    · exact treeRef_ne_root heq
    · exact hy heq
    · exact hritem j (by tauto) heq
  refine ⟨?_, ?_, by rw [hrot.color]⟩
  · ext s'
    simp only [hrot.child, hra, hrb, hrp, false_and, if_false]
  · simp only [hrot.up, hra, hrb, hry, if_false]

theorem rot_step (hT : MapTree h m (fill ctx (join d c₁ x a (join d c₂ y b w)))) :
    TreeStep m h (fill ctx (join d c₁ x a (join d c₂ y b w))) (h.rot d m (.item a))
      (fill ctx (join d c₂ (join d c₁ x a y) b w)) := by
  have hp := mapTree_fill.mp hT
  have hrot := hp.rotated
  have hitems : (join d c₂ (join d c₁ x a y) b w).toList =
      (join d c₁ x a (join d c₂ y b w)).toList := toList_rotate d ..
  constructor
  · apply hT.replace
    · have ha : a ∉ RedBlack.around ctx := hp.apart a (by simp only [mem_join]; tauto)
      have hb : b ∉ RedBlack.around ctx := hp.apart b (by simp only [mem_join]; tauto)
      rw [hrot.child, if_neg, if_neg, if_pos ⟨rfl, rfl⟩, treeRef_join]
      · exact fun heq => item_ne_pathRef ha heq.1.symm
      · exact fun heq => item_ne_pathRef hb heq.1.symm
    · exact hrot.isTree hp
    · rw [toList_fill_congr hitems]
      exact hT.nodup
    · exact fun r hr => hrot.elsewhere hp hr
    · rw [hrot.color]
  · exact toList_fill_congr hitems
  · exact fun r hr => hrot.outside hr
  · rw [hrot.up]
    simp only [reduceCtorEq, if_false]
    rw [if_neg fun heq => heq.2 heq.1.symm]

end

/-!
## Quick maps and their searches

What holds of a map between two calls, and where the two searches of the tree end.
-/

open OpaFm.Lib OpaFm.Lib.RedBlack OpaFm.Lib.RedBlack.RbTree Qmaps

variable {μ ι : Type}

def ItemBefore (s : Qmaps μ ι) (m : μ) (i j : ι) : Prop :=
  KeyBefore (s.keyCompare m) (s.key (.item i)) (s.key (.item j))

/-- The memory holds the map `m` with the tree `T`. -/
structure IsMap (s : Qmaps μ ι) (m : μ) (T : RbTree ι) : Prop where
  tree : MapTree s.heap m T
  balanced : ∃ n, Balanced T .black n
  sorted : T.toList.Pairwise (ItemBefore s m)
  list : Circular s.links (.nil m) (T.toList.map .item)
  count : s.count m = T.toList.length

structure Untouched (s s' : Qmaps μ ι) (m : μ) (items : List ι) : Prop where
  cell : ∀ r, ¬Own m items r → SameCell s.heap s'.heap r
  next : ∀ r, ¬Own m items r → s'.links.next r = s.links.next r
  prev : ∀ r, ¬Own m items r → s'.links.prev r = s.links.prev r
  key : ∀ r, ¬Own m items r → s'.key r = s.key r
  count : ∀ m', m' ≠ m → s'.count m' = s.count m'
  keyCompare : s'.keyCompare = s.keyCompare

def foundRef (m : μ) : Option ι → Ref μ ι
  | none => .nil m
  | some i => .item i

theorem head_refs (m : μ) (items : List ι) (h) :
    (items.map Ref.item ++ [Ref.nil m]).head h = foundRef m items.head? := by
  cases items <;> rfl

theorem next_foundRef {s : Qmaps μ ι} {m : μ} {i : ι} {l₁ l₂ : List ι}
    (hlist : Circular s.links (.nil m) ((l₁ ++ i :: l₂).map .item)) :
    s.clQmapNext (.item i) = foundRef m l₂.head? := by
  rw [List.map_append, List.map_cons] at hlist
  exact hlist.next_eq.trans (head_refs m l₂ _)

theorem clQmapHead_eq {s : Qmaps μ ι} {m : μ} {T : RbTree ι} (hs : IsMap s m T) :
    s.clQmapHead m = foundRef m T.toList.head? :=
  hs.list.next_sentinel.trans (head_refs m T.toList _)

def findKey (s : Qmaps μ ι) (m : μ) (key : Nat) (items : List ι) : Option ι :=
  items.find? fun i => SameKey (s.keyCompare m) (s.key (.item i)) key

variable {s s' : Qmaps μ ι} {m : μ} {key : Nat}

theorem findKey_eq_some {items : List ι} {i : ι} (hsorted : items.Pairwise (ItemBefore s m))
    (hi : i ∈ items) (hsame : SameKey (s.keyCompare m) (s.key (.item i)) key) :
    findKey s m key items = some i := by
  induction items with
  | nil => exact absurd hi List.not_mem_nil
  | cons j items ih =>
    rw [List.pairwise_cons] at hsorted
    rw [findKey, List.find?_cons]
    rcases List.mem_cons.mp hi with rfl | hi
    · simp [hsame]
    · have hne : ¬SameKey (s.keyCompare m) (s.key (.item j)) key :=
        (hsame.before_right.mp (hsorted.1 i hi)).not_same
      simp only [hne, decide_false]
      exact ih hsorted.2 hi

theorem findKey_eq_none {items : List ι} : findKey s m key items = none ↔
    ∀ i ∈ items, ¬SameKey (s.keyCompare m) (s.key (.item i)) key := by
  simp [findKey, List.find?_eq_none]

theorem sorted_congr {items : List ι}
    (hkey : ∀ i ∈ items, s'.key (.item i) = s.key (.item i)) (hkc : s'.keyCompare = s.keyCompare)
    (hsorted : items.Pairwise (ItemBefore s m)) : items.Pairwise (ItemBefore s' m) := by
  apply hsorted.imp_of_mem
  intro i j hi hj hlt
  unfold ItemBefore
  rw [hkc, hkey i hi, hkey j hj]
  exact hlt

theorem sorted_insert [DecidableEq μ] [DecidableEq ι] {i : ι} {l₁ l₂ : List ι}
    (hsorted : (l₁ ++ l₂).Pairwise (ItemBefore s m)) (hi : i ∉ l₁ ++ l₂)
    (hkey : s'.key = Function.update s.key (.item i) key) (hkc : s'.keyCompare = s.keyCompare)
    (h₁ : ∀ j ∈ l₁, KeyBefore (s.keyCompare m) (s.key (.item j)) key)
    (h₂ : ∀ j ∈ l₂, KeyBefore (s.keyCompare m) key (s.key (.item j))) :
    (l₁ ++ i :: l₂).Pairwise (ItemBefore s' m) := by
  have hold : ∀ j ∈ l₁ ++ l₂, s'.key (.item j) = s.key (.item j) := by
    intro j hj
    rw [hkey]
    apply Function.update_of_ne
    rintro ⟨⟩
    exact hi hj
  have hnew : s'.key (.item i) = key := by rw [hkey, Function.update_self]
  have hsorted' := sorted_congr hold hkc hsorted
  rw [List.pairwise_append] at hsorted' ⊢
  obtain ⟨hs₁, hs₂, hs₁₂⟩ := hsorted'
  refine ⟨hs₁, List.pairwise_cons.mpr ⟨?_, hs₂⟩, ?_⟩
  · intro j hj
    unfold ItemBefore
    rw [hnew, hkc, hold j (List.mem_append_right _ hj)]
    exact h₂ j hj
  · intro a ha b hb
    rcases List.mem_cons.mp hb with rfl | hb
    · unfold ItemBefore
      rw [hnew, hkc, hold a (List.mem_append_left _ ha)]
      exact h₁ a ha
    · exact hs₁₂ a ha b hb

variable [DecidableEq μ] [DecidableEq ι] {t T : RbTree ι}
  {ctx : List (Frame ι)} {p : Ref μ ι} {fuel : Nat}

theorem walk_eq (l₁ : List ι) {l₂ : List ι} (hlist : Circular s.links (.nil m) ((l₁ ++ l₂).map .item))
    (hfuel : l₂.length < fuel) : s.walk m fuel (foundRef m l₂.head?) = some (l₂.map .item) := by
  induction l₂ generalizing l₁ fuel with
  | nil =>
    obtain ⟨fuel, rfl⟩ := Nat.exists_eq_succ_of_ne_zero (Nat.ne_of_gt hfuel)
    exact if_pos rfl
  | cons j l₂ ih =>
    obtain ⟨fuel, rfl⟩ := Nat.exists_eq_succ_of_ne_zero (Nat.ne_of_gt (Nat.zero_lt_of_lt hfuel))
    have hnext : s.clQmapNext (.item j) = foundRef m l₂.head? := next_foundRef hlist
    have hrest : s.walk m fuel (foundRef m l₂.head?) = some (l₂.map .item) := by
      apply ih (l₁ ++ [j])
      · simpa using hlist
      · simp only [List.length_cons] at hfuel
        omega
    show s.walk m (fuel + 1) (.item j) = _
    rw [walk, if_neg (by simp), hnext, hrest]
    rfl

theorem getLoop_spec (ht : IsTree s.heap m p t) (hsorted : t.toList.Pairwise (ItemBefore s m))
    (hfuel : t.toList.length < fuel) :
    s.getLoop m key fuel (treeRef m t) = some (foundRef m (findKey s m key t.toList)) := by
  induction t generalizing p fuel with
  | nil =>
    obtain ⟨fuel, rfl⟩ := Nat.exists_eq_succ_of_ne_zero (Nat.ne_of_gt hfuel)
    exact if_pos rfl
  | node c l i r ihl ihr =>
    obtain ⟨fuel, rfl⟩ := Nat.exists_eq_succ_of_ne_zero (Nat.ne_of_gt (Nat.zero_lt_of_lt hfuel))
    obtain ⟨-, -, hleft, hright, hl, hr⟩ := ht
    simp only [toList, List.length_append, List.length_cons, List.pairwise_append,
      List.pairwise_cons, List.mem_cons] at hfuel hsorted
    obtain ⟨hsl, ⟨hir, hsr⟩, hlr⟩ := hsorted
    have hli : ∀ j ∈ l.toList, ItemBefore s m j i := fun j hj => hlr j hj i (.inl rfl)
    rw [getLoop, treeRef, if_neg (by simp), hleft, hright]
    simp only [findKey, toList, List.find?_append, List.find?_cons]
    rcases search_cases (s.keyCompare m) (s.key (.item i)) key with
      ⟨hlt, hne, hle⟩ | ⟨heq, hzero⟩ | ⟨hgt, hne, hpos⟩
    · have hnone : l.toList.find?
          (fun i => SameKey (s.keyCompare m) (s.key (.item i)) key) = none := by
        apply List.find?_eq_none.mpr
        intro j hj
        simpa using ((hli j hj).trans hlt).not_same
      rw [if_neg hne, if_neg hle, ihr hr hsr (by omega), hnone]
      simp [findKey, hlt.not_same]
    · have hnone : l.toList.find?
          (fun i => SameKey (s.keyCompare m) (s.key (.item i)) key) = none := by
        apply List.find?_eq_none.mpr
        intro j hj
        simpa using (heq.before_right.mp (hli j hj)).not_same
      rw [if_pos hzero, hnone]
      simp [heq, foundRef]
    · have hnone : r.toList.find?
          (fun i => SameKey (s.keyCompare m) (s.key (.item i)) key) = none := by
        apply List.find?_eq_none.mpr
        intro j hj
        simpa using fun hsame => (hgt.trans (hir j hj)).not_same hsame.symm
      rw [if_neg hne, if_pos hpos, ihl hl hsl (by omega), hnone]
      simp [findKey, show ¬SameKey (s.keyCompare m) (s.key (.item i)) key from hne]

theorem clQmapGet_eq (hs : IsMap s m T) (key : Nat) :
    s.clQmapGet m key = some (foundRef m (findKey s m key T.toList)) := by
  unfold clQmapGet clQmapRoot
  rw [hs.tree.root]
  apply getLoop_spec hs.tree.tree hs.sorted
  rw [hs.count]
  omega

structure RoomFor (s : Qmaps μ ι) (m : μ) (key : Nat) (ctx : List (Frame ι)) : Prop where
  before : ∀ i ∈ leading ctx, KeyBefore (s.keyCompare m) (s.key (.item i)) key
  after : ∀ i ∈ trailing ctx, KeyBefore (s.keyCompare m) key (s.key (.item i))

theorem insertLoop_spec (hT : MapTree s.heap m (fill ctx t))
    (hsorted : t.toList.Pairwise (ItemBefore s m)) (hroom : RoomFor s m key ctx) {res : Int}
    (hres : ctx ≠ [] → (0 < res ↔ pathSide ctx = .left)) (hfuel : t.toList.length < fuel) :
    (∃ i ∈ t.toList, SameKey (s.keyCompare m) (s.key (.item i)) key ∧
      s.insertLoop m key fuel (pathRef m ctx) (treeRef m t) res = some (.present (.item i))) ∨
    ∃ ctx' res', fill ctx t = fill ctx' .nil ∧ RoomFor s m key ctx' ∧
      (ctx' ≠ [] → (0 < res' ↔ pathSide ctx' = .left)) ∧
      s.insertLoop m key fuel (pathRef m ctx) (treeRef m t) res =
        some (.free (pathRef m ctx') res') := by
  induction t generalizing ctx res fuel with
  | nil =>
    obtain ⟨fuel, rfl⟩ := Nat.exists_eq_succ_of_ne_zero (Nat.ne_of_gt hfuel)
    exact .inr ⟨ctx, res, rfl, hroom, hres, if_pos rfl⟩
  | node c l i r ihl ihr =>
    obtain ⟨fuel, rfl⟩ := Nat.exists_eq_succ_of_ne_zero (Nat.ne_of_gt (Nat.zero_lt_of_lt hfuel))
    obtain ⟨-, -, hleft, hright, -, -⟩ := (mapTree_fill.mp hT).tree
    simp only [toList, List.length_append, List.length_cons, List.pairwise_append,
      List.pairwise_cons, List.mem_cons] at hfuel hsorted
    obtain ⟨hsl, ⟨hir, hsr⟩, hlr⟩ := hsorted
    have hli : ∀ j ∈ l.toList, ItemBefore s m j i := fun j hj => hlr j hj i (.inl rfl)
    rw [insertLoop, treeRef, if_neg (by simp), hleft, hright]
    rcases search_cases (s.keyCompare m) (s.key (.item i)) key with
      ⟨hlt, hne, hle⟩ | ⟨heq, hzero⟩ | ⟨hgt, hne, hpos⟩
    · have hroom' : RoomFor s m key (⟨.right, c, i, l⟩ :: ctx) := by
        constructor
        · intro j hj
          simp only [RedBlack.leading, List.mem_append, List.mem_singleton] at hj
          rcases hj with hj | hj | rfl
          · exact hroom.before j hj
          · exact (hli j hj).trans hlt
          · exact hlt
        · exact hroom.after
      rw [if_neg hne, if_neg hle]
      have hfuel' : r.toList.length < fuel := by omega
      have hside : pathSide (⟨.right, c, i, l⟩ :: ctx) ≠ .left := by simp [pathSide]
      rcases ihr hT hsr hroom' (fun _ => iff_of_false hle hside) hfuel' with
        ⟨j, hj, hsame, hloop⟩ | hfree
      · exact .inl ⟨j, by simp [toList, hj], hsame, hloop⟩
      · exact .inr hfree
    · rw [if_pos hzero]
      exact .inl ⟨i, by simp [toList], heq, rfl⟩
    · have hroom' : RoomFor s m key (⟨.left, c, i, r⟩ :: ctx) := by
        constructor
        · exact hroom.before
        · intro j hj
          simp only [RedBlack.trailing, List.mem_append, List.mem_cons] at hj
          rcases hj with rfl | hj | hj
          · exact hgt
          · exact hgt.trans (hir j hj)
          · exact hroom.after j hj
      rw [if_neg hne, if_pos hpos]
      have hfuel' : l.toList.length < fuel := by omega
      rcases ihl hT hsl hroom' (fun _ => iff_of_true hpos rfl) hfuel' with
        ⟨j, hj, hsame, hloop⟩ | hfree
      · exact .inl ⟨j, by simp [toList, hj], hsame, hloop⟩
      · exact .inr hfree

end OpaFm.Qmap
