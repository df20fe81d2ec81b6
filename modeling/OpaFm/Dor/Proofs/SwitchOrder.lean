import OpaFm.Dor.Proofs.Completeness
import OpaFm.Dor.Proofs.Soundness

/-!
# The order of the switches

On a ring with a long arc that is not complete, the switch at the end of the arc is marked as
broken when the walk of its neighbour comes first.
-/

namespace OpaFm.Dor

open OpaFm.Lib

namespace DorFabric

open DorTopology DorClosure

variable {n D : Nat} {F : DorFabric n D} {cl cl' : DorClosure n} {src x y d e t : Fin n}
  {i : Fin D} {dir : DorDirection} {w : Way} {ok longer : Bool} {fuel : Nat}
  {walk : DorClosure n → Fin n → DorDirection → Option (DorClosure n × Bool)}

/-! ## What walks leave alone -/

structure WalkRel (d : Fin n) (R : DorClosure n → DorClosure n → Prop) : Prop where
  refl : ∀ cl, R cl cl
  trans : ∀ a b c, R a b → R b c → R a c
  set : ∀ cl z w, R cl (cl.set z d w)
  setBroken : ∀ cl z, R cl (cl.setBroken z d)

section

variable {R : DorClosure n → DorClosure n → Prop}

theorem WalkRel.visit (hR : WalkRel d R)
    (hwalk : ∀ cl x dir cl' ok, walk cl x dir = some (cl', ok) → R cl cl')
    (h : F.visit walk i x d w cl = some (cl', ok)) : R cl cl' := by
  rcases visit_eq_some h with ⟨-, rfl, -⟩ | ⟨-, rfl, -⟩ | ⟨y, -, -, hw⟩
  · exact hR.refl _
  · exact hR.refl _
  · exact hwalk _ _ _ _ _ hw

theorem WalkRel.tryWay (hR : WalkRel d R)
    (hwalk : ∀ cl x dir cl' ok, walk cl x dir = some (cl', ok) → R cl cl')
    (h : F.tryWay walk i x d longer w cl = some cl') :
    ∃ clA ok, F.visit walk i x d w cl = some (clA, ok) ∧ R clA cl' := by
  rcases tryWay_eq_some h with ⟨clA, hv, rfl⟩ | ⟨-, clA, y, clB, ok, hv, -, hw, rfl⟩ | ⟨hv, -⟩
  · exact ⟨clA, true, hv, hR.set _ _ _⟩
  · refine ⟨clA, false, hv, ?_⟩
    have hlong := hwalk _ _ _ _ _ hw
    split
    · exact hR.trans _ _ _ hlong (hR.set _ _ _)
    · exact hlong
  · exact ⟨cl', false, hv, hR.refl _⟩

theorem WalkRel.attempt (hR : WalkRel d R)
    (hwalk : ∀ cl x dir cl' ok, walk cl x dir = some (cl', ok) → R cl cl')
    (h : F.attempt walk i x d dir w cl = some cl') : R cl cl' := by
  unfold DorTopology.attempt at h
  simp only at h
  split at h
  · obtain ⟨clA, ok, hv, hrest⟩ := hR.tryWay hwalk h
    exact hR.trans _ _ _ (hR.visit hwalk hv) hrest
  · cases h
    exact hR.refl _

theorem WalkRel.isPathRealizable (hR : WalkRel d R) (fuel : Nat) :
    ∀ cl x dir cl' ok, F.walkTo fuel d cl x dir = some (cl', ok) → R cl cl' := by
  induction fuel with
  | zero => intro cl x dir cl' ok h; cases h
  | succ fuel ih =>
    intro cl x dir cl' ok h
    rcases isPathRealizable_eq_some h with ⟨-, rfl, -⟩ | ⟨-, -, rfl, -⟩ | ⟨-, -, -, rfl, -⟩ |
        ⟨i, clA, clB, -, -, -, hA, hB, -, rfl⟩
    · exact hR.refl _
    · exact hR.refl _
    · exact hR.refl _
    · have hboth := hR.trans _ _ _ (hR.attempt ih hA) (hR.attempt ih hB)
      split
      · exact hboth
      · exact hR.trans _ _ _ hboth (hR.setBroken _ _)

end

theorem walkRel_sameEntry (hne : e ≠ d) : WalkRel d fun cl cl' => ∀ z, SameEntry cl cl' z e := by
  constructor
  · exact fun cl z => .refl cl z e
  · intro a b c hab hbc z
    exact ⟨fun w => ((hbc z).bit w).trans ((hab z).bit w), (hbc z).broken.trans (hab z).broken⟩
  · exact fun cl z w z' => sameEntry_set (.inr hne)
  · exact fun cl z z' => sameEntry_setBroken (.inr hne)

theorem dorBroken_setBroken (cl : DorClosure n) (z d y e : Fin n) :
    (cl.setBroken z d).dorBroken y e = (decide (y = z ∧ e = d) || cl.dorBroken y e) :=
  ijSet_apply cl.dorBroken z d y e

theorem walkRel_dorBroken (d y e : Fin n) :
    WalkRel d fun cl cl' => cl.dorBroken y e = true → cl'.dorBroken y e = true := by
  constructor
  · exact fun cl hb => hb
  · exact fun a b c hab hbc hb => hbc (hab hb)
  · intro cl z w hb
    cases w <;> exact hb
  · intro cl z hb
    rw [dorBroken_setBroken, hb, Bool.or_true]

/-! ## A walk into a gap -/

theorem Consistent.walkBy_dist (hcons : F.Consistent cl) (hi : F.firstDifference x d = some i)
    (hbit : cl.bit w x d = true) : (F.walkBy w i (F.dist w x d i) x).isSome = true := by
  induction hk : F.dist w x d i generalizing x with
  | zero => rfl
  | succ k ih =>
    obtain ⟨i', hi', y, hy, -, hnear⟩ := hcons w x d hbit
    rw [hi] at hi'
    cases hi'
    have hstep := dist_neighbor hy (firstDifference_eq_some_iff.mp hi).1
    show ((F.neighbor w x i).bind (F.walkBy w i k)).isSome = true
    rw [hy, Option.bind_some]
    by_cases heq : F.coords y i = F.coords d i
    · have hzero : F.dist w y d i = 0 := dist_eq_zero_iff.mpr heq
      have hk0 : k = 0 := by omega
      rw [hk0]
      rfl
    · exact ih (firstDifference_neighbor hi hy heq) (hnear heq).1 (by omega)

theorem dorBroken_of_gap (hcons : F.Consistent cl) (hempty : EmptyEntry cl y d)
    (hi : F.firstDifference y d = some i) (hgap : F.walkBy w i (F.dist w y d i) y = none)
    (h : F.isPathRealizable fuel cl y d w.direction = some (cl', ok)) : cl'.dorBroken y d = true := by
  have hmay : MayWalk cl d y w.direction := fun w' _ => hempty.bit w'.other
  have hr := isPathRealizable_result fuel d cl y w.direction cl' ok h hcons hmay
  have hno : ok ≠ true := by
    intro hok
    have hrouted := (hr.routed hok).resolve_left (ne_of_firstDifference hi)
    rw [routed_iff w, hr.committed w rfl] at hrouted
    have hsome := hr.consistent.walkBy_dist hi (hrouted.resolve_right Bool.false_ne_true)
    rw [hgap] at hsome
    cases hsome
  cases fuel with
  | zero => cases h
  | succ fuel =>
    rcases isPathRealizable_eq_some h with ⟨-, -, hok⟩ | ⟨-, -, -, hok⟩ | ⟨-, -, hb, rfl, -⟩ |
        ⟨i, clA, clB, -, -, -, -, -, hok, rfl⟩
    · exact absurd hok hno
    · exact absurd hok hno
    · exact hb
    · have hfail : ¬ok = true := hno
      rw [if_neg hfail, dorBroken_setBroken]
      simp

theorem dorBroken_neighbor_of_gap (hcons : F.Consistent cl) (hempty : ∀ z, EmptyEntry cl z d)
    (hi : F.firstDifference x d = some i) (hshort : F.ShorterWay .right x d)
    (hy : F.neighbor .right x i = some y) (hne : F.coords y i ≠ F.coords d i)
    (hgap : F.walkBy .right i (F.dist .right y d i) y = none)
    (h : F.isPathRealizable fuel cl x d .any = some (cl', ok)) : cl'.dorBroken y d = true := by
  have hiy := firstDifference_neighbor hi hy hne
  rw [shorterWay_iff hi] at hshort
  have hfirst : ∀ fuel clV okV, F.visit (F.walkTo fuel d) i x d .right cl = some (clV, okV) →
      clV.dorBroken y d = true := by
    intro fuel clV okV hv
    rcases visit_eq_some hv with ⟨hnone, -⟩ | ⟨hd, -⟩ | ⟨y', hy', -, hw⟩
    · rw [hy] at hnone
      cases hnone
    · rw [hy] at hd
      cases hd
      exact absurd rfl hne
    · rw [hy] at hy'
      cases hy'
      rw [show F.onward .right y d i = Way.right.direction from if_neg hne] at hw
      exact dorBroken_of_gap hcons (hempty y) hiy hgap hw
  have hR := walkRel_dorBroken d y d
  cases fuel with
  | zero => cases h
  | succ fuel =>
    have hwalk := hR.isPathRealizable (F := F) fuel
    rcases isPathRealizable_eq_some h with ⟨rfl, -⟩ | ⟨-, hrouted, -⟩ | ⟨-, -, hb, rfl, -⟩ |
        ⟨i', clA, clB, hi', -, -, hA, hB, -, rfl⟩
    · exact absurd rfl (ne_of_firstDifference hi)
    · rw [routed_iff .left, (hempty x).bit, (hempty x).bit] at hrouted
      simp at hrouted
    · rw [(hempty x).broken] at hb
      cases hb
    · rw [hi] at hi'
      cases hi'
      simp only [DorTopology.attempt, hshort, if_true] at hA
      obtain ⟨clV, okV, hv, hrest⟩ := hR.tryWay hwalk hA
      have hclB := hR.attempt hwalk hB (hrest (hfirst fuel clV okV hv))
      split
      · exact hclB
      · exact hR.setBroken _ _ hclB

/-! ## Complete in every order -/

theorem emptyEntry_empty (x d : Fin n) : EmptyEntry (DorClosure.empty n) x d := by
  refine ⟨fun w => ?_, rfl⟩
  cases w <;> rfl

theorem closureStep_eq_some {p : Fin n × Fin n}
    (h : (if p.1 = p.2 then some cl else (F.isPathRealizable F.walkFuel cl p.1 p.2 .any).map Prod.fst) =
      some cl') :
    cl' = cl ∨ p.1 ≠ p.2 ∧ ∃ ok, F.walkTo F.walkFuel p.2 cl p.1 .any = some (cl', ok) := by
  split at h
  · cases h
    exact .inl rfl
  next hne =>
    obtain ⟨⟨cl'', ok⟩, hwalk, hcl'⟩ := Option.map_eq_some_iff.mp h
    cases hcl'
    exact .inr ⟨hne, ok, hwalk⟩

theorem dorBroken_of_first {rest : List (Fin n)} (hd : d ∈ rest)
    (hi : F.firstDifference x d = some i) (hshort : F.ShorterWay .right x d)
    (hy : F.neighbor .right x i = some y) (hne : F.coords y i ≠ F.coords d i)
    (hgap : F.walkBy .right i (F.dist .right y d i) y = none)
    (h : F.calcDorClosure (x :: rest) = some cl) : cl.dorBroken y d = true := by
  obtain ⟨before, after, hsplit, hnotin⟩ := List.eq_append_cons_of_mem (List.mem_cons_of_mem x hd)
  unfold DorTopology.calcDorClosure at h
  rw [List.flatMap_cons, hsplit, List.map_append, List.map_cons, List.append_assoc, List.cons_append,
    List.foldlM_append] at h
  obtain ⟨cl₁, hbefore, h⟩ := Option.bind_eq_some_iff.mp h
  rw [List.foldlM_cons] at h
  obtain ⟨cl₂, hwalk, hafter⟩ := Option.bind_eq_some_iff.mp h
  have hfirst : F.Consistent cl₁ ∧ ∀ z, EmptyEntry cl₁ z d := by
    apply foldlM_keeps (J := fun cl => F.Consistent cl ∧ ∀ z, EmptyEntry cl z d) hbefore
    · exact ⟨F.consistent_empty, fun z => emptyEntry_empty z d⟩
    · rintro p hp cl cl' ⟨hcons, hempty⟩ hstep
      rcases closureStep_eq_some hstep with rfl | ⟨-, ok, hw⟩
      · exact ⟨hcons, hempty⟩
      · have hpd : d ≠ p.2 := by
          obtain ⟨e, he, rfl⟩ := List.mem_map.mp hp
          rintro rfl
          exact hnotin he
        have hmay : MayWalk cl p.2 p.1 .any := by
          intro w hw
          cases w <;> cases hw
        refine ⟨(isPathRealizable_result _ _ _ _ _ _ _ hw hcons hmay).consistent, fun z => ?_⟩
        have hsame := (walkRel_sameEntry hpd).isPathRealizable _ _ _ _ _ _ hw z
        exact ⟨fun w => (hsame.bit w).trans ((hempty z).bit w), hsame.broken.trans (hempty z).broken⟩
  have hmark : cl₂.dorBroken y d = true := by
    simp only [if_neg (ne_of_firstDifference hi)] at hwalk
    obtain ⟨⟨cl', ok⟩, hw, hcl'⟩ := Option.map_eq_some_iff.mp hwalk
    cases hcl'
    exact dorBroken_neighbor_of_gap hfirst.1 hfirst.2 hi hshort hy hne hgap hw
  apply foldlM_keeps (J := fun cl => cl.dorBroken y d = true) hafter hmark
  intro p _ cl cl' hb hstep
  rcases closureStep_eq_some hstep with rfl | ⟨-, ok, hw⟩
  · exact hb
  · exact (walkRel_dorBroken p.2 y d).isPathRealizable _ _ _ _ _ _ hw hb

/-- A long arc that is not closed: the switch before its end prefers to go on, over the end of
the arc, where a path back along the arc is left. -/
theorem exists_gap (htor : F.toroidal i = true)
    (harc : (F.walkBy .right i ((F.dimensionLength i + 1) / 2 + 1) d).isSome = true)
    (hopen : F.walkBy .right i (F.dimensionLength i) d = none) :
    ∃ x y, F.firstDifference x d = some i ∧ F.ShorterWay .right x d ∧
      F.neighbor .right x i = some y ∧ F.coords y i ≠ F.coords d i ∧
      F.walkBy .right i (F.dist .right y d i) y = none ∧ F.DorPath d y := by
  obtain ⟨y, harc⟩ := Option.isSome_iff_exists.mp harc
  obtain ⟨x, hx, hxy⟩ := walkBy_add_eq_some.mp harc
  rw [walkBy_one] at hxy
  have hlong : (F.dimensionLength i + 1) / 2 + 1 < F.dimensionLength i := by
    by_contra hle
    obtain ⟨z, hz, -⟩ := exists_walkBy_of_le (Nat.le_of_not_lt hle) harc
    rw [hopen] at hz
    cases hz
  have hdistx : F.dist .left x d i = (F.dimensionLength i + 1) / 2 :=
    dist_of_walkBy (walkBy_symm hx) (by omega)
  have hdisty : F.dist .left y d i = (F.dimensionLength i + 1) / 2 + 1 :=
    dist_of_walkBy (walkBy_symm harc) hlong
  have hnex : F.coords x i ≠ F.coords d i := by
    rw [ne_eq, ← dist_eq_zero_iff (w := .left)]
    omega
  have hney : F.coords y i ≠ F.coords d i := by
    rw [ne_eq, ← dist_eq_zero_iff (w := .left)]
    omega
  have hi : F.firstDifference x d = some i :=
    firstDifference_eq_some_iff.mpr ⟨hnex, fun k hk => walkBy_coords hx hk.ne⟩
  have hroundx := dist_add_other (w := .right) hnex
  have hroundy := dist_add_other (w := .right) hney
  simp only [Way.other] at hroundx hroundy
  refine ⟨x, y, hi, ?_, hxy, hney, ?_, ?_⟩
  · rw [shorterWay_iff hi, goes_any_iff_of_toroidal htor hnex]
    simp only [Way.other]
    omega
  · rw [Option.eq_none_iff_forall_ne_some]
    intro z hz
    have hall := walkBy_add_eq_some.mpr ⟨y, harc, hz⟩
    rw [show (F.dimensionLength i + 1) / 2 + 1 + F.dist .right y d i = F.dimensionLength i by omega,
      hopen] at hall
    cases hall
  · have hback : F.walkBy .left i ((F.dimensionLength i + 1) / 2 + 1) y = some d := walkBy_symm harc
    exact .along .left (firstDifference_neighbor hi hxy hney) hback rfl .here

/-- In every order of the switches a pair is marked as broken only if there is no path in
dimension order, and the bits do not depend on the order, exactly where long arcs close. -/
theorem dorClosure_complete_iff (F : DorFabric n D) :
    ((∀ switches : List (Fin n), switches.Perm (List.finRange n) →
        ∃ cl, F.calcDorClosure switches = some cl ∧
          ∀ i j, cl.dorBroken i j = true → ¬F.DorPath j i) ∧
      ∀ switches switches' : List (Fin n), switches.Perm (List.finRange n) →
        switches'.Perm (List.finRange n) →
          F.calcDorClosure switches = F.calcDorClosure switches') ↔
      F.LongArcsClose := by
  have hmem : ∀ {switches : List (Fin n)}, switches.Perm (List.finRange n) → ∀ x, x ∈ switches :=
    fun hperm x => hperm.mem_iff.mpr (List.mem_finRange x)
  constructor
  · rintro ⟨hcomplete, -⟩ i htor d harc
    by_contra hopen
    rw [Option.not_isSome_iff_eq_none] at hopen
    obtain ⟨x, y, hi, hshort, hy, hne, hgap, hpath⟩ := exists_gap htor harc hopen
    have hperm := (List.perm_cons_erase (List.mem_finRange x)).symm
    obtain ⟨cl, hcl, hbroken⟩ := hcomplete _ hperm
    have hd : d ∈ (List.finRange n).erase x :=
      (List.mem_erase_of_ne (ne_of_firstDifference hi).symm).mpr (List.mem_finRange d)
    exact hbroken y d (dorBroken_of_first hd hi hshort hy hne hgap hcl) hpath
  · intro hC
    constructor
    · intro switches hperm
      obtain ⟨cl, hcl, hexact⟩ := calcDorClosure_exact hC switches
      refine ⟨cl, hcl, fun i j hb => ?_⟩
      exact (hexact i j (hmem hperm i) (hmem hperm j)).broken.mp hb
    · intro switches switches' hperm hperm'
      obtain ⟨cl, hcl, hexact⟩ := calcDorClosure_exact hC switches
      obtain ⟨cl', hcl', hexact'⟩ := calcDorClosure_exact hC switches'
      rw [hcl, hcl']
      congr 1
      exact eq_of_exact (fun x e => hexact x e (hmem hperm x) (hmem hperm e))
        fun x e => hexact' x e (hmem hperm' x) (hmem hperm' e)

end DorFabric

/-! ## A ring with a link missing -/

/-- Four switches at the coordinates 0, 1, 2 and -1 of a ring without the link from 1 to 2. -/
def openRing : DorFabric 4 1 where
  dimensionLength := fun _ => 4
  toroidal := fun _ => true
  coords := fun x _ => if x = 3 then -1 else (x.val : Int)
  left := fun x _ => if x = 0 then some 3 else if x = 2 then none else some (x - 1)
  right := fun x _ => if x = 1 then none else some (x + 1)
  coords_mem := by decide
  coords_injective := by
    intro x y hxy
    have h := congrFun hxy 0
    revert x y
    decide
  left_iff := by decide
  right_coords := by decide

/-- The pair of the coordinates 1 and 2 is marked as broken or as going left, depending on
which switch comes first. -/
theorem openRing_broken :
    (∃ cl, openRing.calcDorClosure [0, 1, 2, 3] = some cl ∧ cl.dorBroken 1 2 = true) ∧
      (∃ cl, openRing.calcDorClosure [1, 0, 2, 3] = some cl ∧ cl.dorLeft 1 2 = true) ∧
      openRing.DorPath 2 1 := by
  have hfirst : (openRing.calcDorClosure [0, 1, 2, 3]).map (fun cl => cl.dorBroken 1 2) = some true := by
    decide +kernel
  have hsecond : (openRing.calcDorClosure [1, 0, 2, 3]).map (fun cl => cl.dorLeft 1 2) = some true := by
    decide +kernel
  refine ⟨Option.map_eq_some_iff.mp hfirst, Option.map_eq_some_iff.mp hsecond, ?_⟩
  exact .along (i := 0) (k := 3) (y := 2) .left (by decide) (by decide) rfl .here

end OpaFm.Dor
