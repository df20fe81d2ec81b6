import Mathlib.Algebra.GroupWithZero.Nat
import Mathlib.Data.List.Basic
import Mathlib.Data.List.Nodup

/-!
# Red-black trees and the place of a node in them

A tree is looked at from one of its nodes: the subtree there, and the frames on the way up to
the root.  Nodes are written by the child on one side and the child on the other, so that what
holds of one side is stated once.
-/

namespace OpaFm.Lib.RedBlack

inductive Color where
  | red
  | black
  deriving DecidableEq, Repr

inductive Side where
  | left
  | right
  deriving DecidableEq, Repr

def Side.other : Side → Side
  | .left => .right
  | .right => .left

@[simp] theorem Side.other_other (s : Side) : s.other.other = s := by cases s <;> rfl

@[simp] theorem Side.other_ne (s : Side) : s.other ≠ s := by cases s <;> decide

@[simp] theorem Side.ne_other (s : Side) : s ≠ s.other := by cases s <;> decide

theorem Side.eq_other_of_ne {s s' : Side} (h : s ≠ s') : s = s'.other := by
  cases s <;> cases s' <;> first | rfl | exact absurd rfl h

inductive RbTree (α : Type*) where
  | nil
  | node (color : Color) (left : RbTree α) (item : α) (right : RbTree α)

namespace RbTree

variable {α : Type*}

def toList : RbTree α → List α
  | nil => []
  | node _ l a r => l.toList ++ a :: r.toList

def color : RbTree α → Color
  | nil => .black
  | node c _ _ _ => c

def paint (c : Color) : RbTree α → RbTree α
  | nil => nil
  | node _ l a r => node c l a r

/-- A node with the child `near` on the side `s`, and `far` on the other. -/
def join (s : Side) (c : Color) (near : RbTree α) (a : α) (far : RbTree α) : RbTree α :=
  match s with
  | .left => node c near a far
  | .right => node c far a near

variable {s : Side} {c c' : Color} {near far t : RbTree α} {a b : α} {n : Nat}

theorem join_other (s : Side) (c : Color) (near : RbTree α) (a : α) (far : RbTree α) :
    join s.other c near a far = join s c far a near := by cases s <;> rfl

theorem exists_join (s : Side) (c : Color) (l : RbTree α) (a : α) (r : RbTree α) :
    ∃ near far, node c l a r = join s c near a far := by
  cases s
  · exact ⟨l, r, rfl⟩
  · exact ⟨r, l, rfl⟩

@[simp] theorem color_join : (join s c near a far).color = c := by cases s <;> rfl

@[simp] theorem paint_join : (join s c near a far).paint c' = join s c' near a far := by
  cases s <;> rfl

@[simp] theorem toList_paint : (t.paint c).toList = t.toList := by cases t <;> rfl

theorem toList_join_perm :
    (join s c near a far).toList.Perm (a :: (near.toList ++ far.toList)) := by
  cases s
  · exact List.perm_middle
  · exact List.perm_middle.trans (List.perm_append_comm.cons a)

theorem nodup_join : (join s c near a far).toList.Nodup ↔
    a ∉ near.toList ∧ a ∉ far.toList ∧ near.toList.Nodup ∧ far.toList.Nodup ∧
      ∀ b ∈ near.toList, b ∉ far.toList := by
  rw [toList_join_perm.nodup_iff, List.nodup_cons, List.nodup_append', List.mem_append]
  simp only [List.Disjoint]
  tauto

theorem mem_join {b : α} : b ∈ (join s c near a far).toList ↔
    b = a ∨ b ∈ near.toList ∨ b ∈ far.toList := by
  rw [toList_join_perm.mem_iff, List.mem_cons, List.mem_append]

theorem toList_rotate (s : Side) (c₁ c₂ c₃ c₄ : Color) (x y w : RbTree α) (a b : α) :
    (join s c₁ (join s c₂ x a y) b w).toList = (join s c₃ x a (join s c₄ y b w)).toList := by
  cases s <;> simp [join, toList]

theorem toList_join_congr {near' far' : RbTree α} (hnear : near.toList = near'.toList)
    (hfar : far.toList = far'.toList) :
    (join s c near a far).toList = (join s c' near' a far').toList := by
  cases s <;> simp [join, toList, hnear, hfar]

/-! ## Balance -/

/-- No red node has a red child, and all ways down pass `n` black nodes. -/
inductive Balanced : RbTree α → Color → Nat → Prop
  | nil : Balanced nil .black 0
  | red {l r : RbTree α} {a : α} {n : Nat} :
      Balanced l .black n → Balanced r .black n → Balanced (node .red l a r) .red n
  | black {l r : RbTree α} {a : α} {c₁ c₂ : Color} {n : Nat} :
      Balanced l c₁ n → Balanced r c₂ n → Balanced (node .black l a r) .black (n + 1)

theorem Balanced.color_eq (h : Balanced t c n) : t.color = c := by cases h <;> rfl

theorem balanced_red : Balanced (join s .red near a far) c n ↔
    c = .red ∧ Balanced near .black n ∧ Balanced far .black n := by
  cases s
  · constructor
    · rintro (_ | ⟨hl, hr⟩)
      exact ⟨rfl, hl, hr⟩
    · rintro ⟨rfl, hl, hr⟩
      exact .red hl hr
  · constructor
    · rintro (_ | ⟨hl, hr⟩)
      exact ⟨rfl, hr, hl⟩
    · rintro ⟨rfl, hr, hl⟩
      exact .red hl hr

theorem balanced_black : Balanced (join s .black near a far) c n ↔
    ∃ m, c = .black ∧ n = m + 1 ∧ (∃ c₁, Balanced near c₁ m) ∧ ∃ c₂, Balanced far c₂ m := by
  cases s
  · constructor
    · rintro (_ | _ | ⟨hl, hr⟩)
      exact ⟨_, rfl, rfl, ⟨_, hl⟩, ⟨_, hr⟩⟩
    · rintro ⟨m, rfl, rfl, ⟨_, hl⟩, ⟨_, hr⟩⟩
      exact .black hl hr
  · constructor
    · rintro (_ | _ | ⟨hl, hr⟩)
      exact ⟨_, rfl, rfl, ⟨_, hr⟩, ⟨_, hl⟩⟩
    · rintro ⟨m, rfl, rfl, ⟨_, hr⟩, ⟨_, hl⟩⟩
      exact .black hl hr

theorem Balanced.blacken (h : Balanced t c n) : ∃ m, Balanced (t.paint .black) .black m := by
  cases h with
  | nil => exact ⟨0, .nil⟩
  | red hl hr => exact ⟨_, .black hl hr⟩
  | black hl hr => exact ⟨_, .black hl hr⟩

theorem Balanced.blacken_red (h : Balanced t .red n) : Balanced (t.paint .black) .black (n + 1) := by
  cases h with
  | red hl hr => exact .black hl hr

theorem paint_eq_self (h : t.color = c) : t.paint c = t := by
  cases t
  · rfl
  · subst h
    rfl

theorem Balanced.of_items {l r : RbTree α} (h : Balanced (node c l a r) c' n) :
    Balanced (node c l b r) c' n := by
  cases h with
  | red hl hr => exact .red hl hr
  | black hl hr => exact .black hl hr

theorem Balanced.exists_node (h : Balanced t c (n + 1)) (s : Side) :
    ∃ near a far, t = join s c near a far := by
  cases h with
  | red hl hr =>
    obtain ⟨near, far, heq⟩ := exists_join s .red _ _ _
    exact ⟨near, _, far, heq⟩
  | black hl hr =>
    obtain ⟨near, far, heq⟩ := exists_join s .black _ _ _
    exact ⟨near, _, far, heq⟩

def depth : RbTree α → Nat
  | nil => 0
  | node _ l _ r => max l.depth r.depth + 1

theorem Balanced.depth_le (h : Balanced t c n) :
    t.depth ≤ 2 * n + (if c = .red then 1 else 0) ∧ 2 ^ n ≤ t.toList.length + 1 := by
  induction h with
  | nil => simp [depth]
  | red _ _ ihl ihr =>
    simp only [depth, toList, List.length_append, List.length_cons] at *
    grind
  | @black _ _ _ c₁ c₂ _ _ _ ihl ihr =>
    have hone : (if c₁ = .red then 1 else 0) ≤ 1 ∧ (if c₂ = .red then 1 else 0) ≤ 1 := by
      constructor <;> split <;> decide
    simp only [depth, toList, List.length_append, List.length_cons, Nat.pow_succ] at *
    grind

theorem Balanced.depth_le_log (h : Balanced t .black n) :
    t.depth ≤ 2 * Nat.log2 (t.toList.length + 1) := by
  obtain ⟨hdepth, hpow⟩ := h.depth_le
  have hlog : n ≤ Nat.log2 (t.toList.length + 1) := (Nat.le_log2 (Nat.succ_ne_zero _)).2 hpow
  exact Nat.le_trans hdepth (Nat.mul_le_mul_left 2 hlog)

theorem depth_le_length : t.depth ≤ t.toList.length := by
  induction t with
  | nil => exact Nat.le_refl 0
  | node _ _ _ _ ihl ihr =>
    simp only [depth, toList, List.length_append, List.length_cons]
    omega

theorem exists_join_of_red (h : t.color = .red) (s : Side) :
    ∃ near a far, t = join s .red near a far := by
  cases t with
  | nil => cases h
  | node c l a r =>
    cases h
    obtain ⟨near, far, heq⟩ := exists_join s .red l a r
    exact ⟨near, a, far, heq⟩

end RbTree

open RbTree

/-! ## The way up -/

/-- A node above the place that is looked at, which is on its side `side`. -/
structure Frame (α : Type*) where
  side : Side
  color : Color
  item : α
  sibling : RbTree α

variable {α : Type*}

def Frame.fill (f : Frame α) (t : RbTree α) : RbTree α := join f.side f.color t f.item f.sibling

def fill : List (Frame α) → RbTree α → RbTree α
  | [], t => t
  | f :: ctx, t => fill ctx (f.fill t)

theorem fill_sibling (s : Side) (c : Color) (a : α) (t u : RbTree α) (ctx : List (Frame α)) :
    fill (⟨s, c, a, u⟩ :: ctx) t = fill (⟨s.other, c, a, t⟩ :: ctx) u :=
  congrArg (fill ctx) (join_other s c u a t).symm

def leading : List (Frame α) → List α
  | [] => []
  | f :: ctx =>
    match f.side with
    | .left => leading ctx
    | .right => leading ctx ++ (f.sibling.toList ++ [f.item])

def trailing : List (Frame α) → List α
  | [] => []
  | f :: ctx =>
    match f.side with
    | .left => f.item :: (f.sibling.toList ++ trailing ctx)
    | .right => trailing ctx

def around : List (Frame α) → List α
  | [] => []
  | f :: ctx => f.item :: (f.sibling.toList ++ around ctx)

variable {ctx ctx' : List (Frame α)} {f : Frame α} {t t' : RbTree α} {c c' : Color} {a b : α} {n : Nat}

theorem fill_append (ctx ctx' : List (Frame α)) (t : RbTree α) :
    fill (ctx ++ ctx') t = fill ctx' (fill ctx t) := by
  induction ctx generalizing t with
  | nil => rfl
  | cons f ctx ih => exact ih _

theorem toList_fill (ctx : List (Frame α)) (t : RbTree α) :
    (fill ctx t).toList = leading ctx ++ (t.toList ++ trailing ctx) := by
  induction ctx generalizing t with
  | nil => simp [fill, leading, trailing]
  | cons f ctx ih =>
    obtain ⟨side, c, a, sib⟩ := f
    rw [fill, ih]
    cases side <;> simp [Frame.fill, join, toList, leading, trailing]

theorem toList_fill_perm (ctx : List (Frame α)) (t : RbTree α) :
    (fill ctx t).toList.Perm (t.toList ++ around ctx) := by
  induction ctx generalizing t with
  | nil => simp [fill, around]
  | cons f ctx ih =>
    apply (ih (f.fill t)).trans
    apply (toList_join_perm.append_right (around ctx)).trans
    simpa [around, List.append_assoc] using
      (@List.perm_middle α f.item t.toList (f.sibling.toList ++ around ctx)).symm

theorem length_le_around (ctx : List (Frame α)) : ctx.length ≤ (around ctx).length := by
  induction ctx with
  | nil => exact Nat.le_refl _
  | cons f ctx ih =>
    simp only [around, List.length_cons, List.length_append]
    omega

theorem toList_fill_congr (h : t.toList = t'.toList) : (fill ctx t).toList = (fill ctx t').toList := by
  rw [toList_fill, toList_fill, h]

theorem exists_fill_of_mem (h : a ∈ t.toList) : ∃ ctx c l r, t = fill ctx (node c l a r) := by
  induction t with
  | nil => exact absurd h List.not_mem_nil
  | node c l b r ihl ihr =>
    rcases List.mem_append.mp h with hl | hr
    · obtain ⟨ctx, c', l', r', rfl⟩ := ihl hl
      exact ⟨ctx ++ [⟨.left, c, b, r⟩], c', l', r', by rw [fill_append]; rfl⟩
    · rcases List.mem_cons.mp hr with rfl | hr
      · exact ⟨[], c, l, r, rfl⟩
      · obtain ⟨ctx, c', l', r', rfl⟩ := ihr hr
        exact ⟨ctx ++ [⟨.right, c, b, l⟩], c', l', r', by rw [fill_append]; rfl⟩

theorem leading_append (ctx ctx' : List (Frame α)) :
    leading (ctx ++ ctx') = leading ctx' ++ leading ctx := by
  induction ctx with
  | nil => simp [leading]
  | cons f ctx ih =>
    obtain ⟨side, c, a, sib⟩ := f
    cases side <;> simp [leading, ih]

theorem trailing_append (ctx ctx' : List (Frame α)) :
    trailing (ctx ++ ctx') = trailing ctx ++ trailing ctx' := by
  induction ctx with
  | nil => simp [trailing]
  | cons f ctx ih =>
    obtain ⟨side, c, a, sib⟩ := f
    cases side <;> simp [trailing, ih]

theorem exists_fill_head {items : List α} (h : t.toList = a :: items) :
    ∃ ctx c r, t = fill ctx (node c .nil a r) ∧ leading ctx = [] ∧ r.toList ++ trailing ctx = items := by
  induction t generalizing items with
  | nil => cases h
  | node c l b r ihl _ =>
    cases hl : l.toList with
    | nil =>
      have hnil : l = .nil := by
        cases l with
        | nil => rfl
        | node _ _ _ _ => exact absurd hl (List.append_ne_nil_of_right_ne_nil _ (List.cons_ne_nil _ _))
      subst hnil
      cases h
      exact ⟨[], c, r, rfl, rfl, List.append_nil _⟩
    | cons x items' =>
      rw [RbTree.toList, hl] at h
      obtain ⟨rfl, hitems⟩ := List.cons.inj h
      obtain ⟨ctx, c', r', rfl, hbefore, hafter⟩ := ihl hl
      refine ⟨ctx ++ [⟨.left, c, b, r⟩], c', r', by rw [fill_append]; rfl, ?_, ?_⟩
      · rw [leading_append, hbefore]
        rfl
      · rw [trailing_append, ← List.append_assoc, hafter, ← hitems]
        simp [trailing]

theorem exists_fill_successor {items : List α} {l r : RbTree α} (h : r.toList = b :: items) :
    ∃ ctx' c' r', fill ctx (node c l a r) = fill ctx' (node c' .nil b r') ∧
      leading ctx' = leading ctx ++ (l.toList ++ [a]) ∧
      r'.toList ++ trailing ctx' = items ++ trailing ctx := by
  obtain ⟨ctx', c', r', rfl, hbefore, hafter⟩ := exists_fill_head h
  refine ⟨ctx' ++ ⟨.right, c, a, l⟩ :: ctx, c', r', by rw [fill_append]; rfl, ?_, ?_⟩
  · rw [leading_append, hbefore, List.append_nil]
    rfl
  · rw [trailing_append, ← List.append_assoc, hafter]
    rfl

/-! ## Balance of the way up -/

/-- With a subtree of this color and height in its place, the whole is balanced and black. -/
inductive PathBalanced : List (Frame α) → Color → Nat → Prop
  | root {n : Nat} : PathBalanced [] .black n
  | red {s : Side} {a : α} {sib : RbTree α} {ctx : List (Frame α)} {n : Nat} :
      Balanced sib .black n → PathBalanced ctx .red n → PathBalanced (⟨s, .red, a, sib⟩ :: ctx) .black n
  | black {s : Side} {a : α} {sib : RbTree α} {ctx : List (Frame α)} {c c' : Color} {n : Nat} :
      Balanced sib c' n → PathBalanced ctx .black (n + 1) →
      PathBalanced (⟨s, .black, a, sib⟩ :: ctx) c n

theorem PathBalanced.fill (hctx : PathBalanced ctx c n) (ht : Balanced t c n) :
    ∃ m, Balanced (RedBlack.fill ctx t) .black m := by
  induction hctx generalizing t with
  | root => exact ⟨_, ht⟩
  | red hsib _ ih => exact ih (balanced_red.mpr ⟨rfl, ht, hsib⟩)
  | black hsib _ ih => exact ih (balanced_black.mpr ⟨_, rfl, rfl, ⟨_, ht⟩, ⟨_, hsib⟩⟩)

theorem PathBalanced.of_red (h : PathBalanced ctx .red n) (c : Color) : PathBalanced ctx c n := by
  cases h with
  | black hsib hctx => exact .black hsib hctx

theorem PathBalanced.refill {s s' : Side} {sib near far : RbTree α}
    (h : PathBalanced (⟨s, c, a, sib⟩ :: ctx) .black n) (hnear : Balanced near .black n)
    (hfar : Balanced far .black n) : ∃ m, Balanced (RedBlack.fill ctx (join s' c near b far)) .black m := by
  cases h with
  | red _ hctx => exact hctx.fill (balanced_red.mpr ⟨rfl, hnear, hfar⟩)
  | black _ hctx => exact hctx.fill (balanced_black.mpr ⟨_, rfl, rfl, ⟨_, hnear⟩, ⟨_, hfar⟩⟩)

theorem exists_pathBalanced (h : Balanced (fill ctx t) .black n) :
    ∃ c m, Balanced t c m ∧ PathBalanced ctx c m := by
  induction ctx generalizing t with
  | nil => exact ⟨_, _, h, .root⟩
  | cons f ctx ih =>
    obtain ⟨side, c, a, sib⟩ := f
    obtain ⟨c', m, hnode, hctx⟩ := ih h
    cases c with
    | red =>
      obtain ⟨rfl, ht, hsib⟩ := balanced_red.mp hnode
      exact ⟨_, _, ht, .red hsib hctx⟩
    | black =>
      obtain ⟨m', rfl, rfl, ⟨_, ht⟩, ⟨_, hsib⟩⟩ := balanced_black.mp hnode
      exact ⟨_, _, ht, .black hsib hctx⟩

theorem balanced_fill_items {l r : RbTree α} (hbal : ∃ n, Balanced (fill ctx (.node c l a r)) .black n) :
    ∃ n, Balanced (fill ctx (.node c l b r)) .black n := by
  obtain ⟨n, hbal⟩ := hbal
  obtain ⟨c', k, hnode, hctx⟩ := exists_pathBalanced hbal
  exact hctx.fill hnode.of_items

end OpaFm.Lib.RedBlack
