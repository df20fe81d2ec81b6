import OpaFm.Dor.Proofs.Walk
import OpaFm.Lib.Delivery
import OpaFm.Lib.Fold

/-!
# Soundness of the closure

Every bit leads to a neighbour from where the bits lead on, whatever pairs the walks that
set them were for.
-/

namespace OpaFm.Dor

open OpaFm.Lib

namespace DorFabric

open DorTopology DorClosure

variable {n D : Nat} {F : DorFabric n D} {cl cl' clA : DorClosure n} {src x y z d e : Fin n}
  {i k : Fin D} {dir : DorDirection} {w : Way} {ok longer : Bool} {fuel : Nat}
  {walk : DorClosure n → Fin n → DorDirection → Option (DorClosure n × Bool)}

/-! ## Consistent closures -/

def GoodBit (F : DorFabric n D) (cl : DorClosure n) (w : Way) (x e : Fin n) (i : Fin D) : Prop :=
  ∃ y, F.neighbor w x i = some y ∧
    (F.coords y i = F.coords e i → y = e ∨ cl.routed y e = true) ∧
    (F.coords y i ≠ F.coords e i → cl.bit w y e = true ∧ cl.bit w.other y e = false)

def Consistent (F : DorFabric n D) (cl : DorClosure n) : Prop :=
  ∀ w x e, cl.bit w x e = true → ∃ i, F.firstDifference x e = some i ∧ F.GoodBit cl w x e i

theorem consistent_empty (F : DorFabric n D) : F.Consistent (DorClosure.empty n) := by
  intro w x e hbit
  cases w <;> cases hbit

theorem Consistent.setBroken (hcons : F.Consistent cl) (x e : Fin n) :
    F.Consistent (cl.setBroken x e) := by
  intro w x' e' hbit
  rw [bit_setBroken] at hbit
  obtain ⟨i, hi, y, hy, harrived, hnear⟩ := hcons w x' e' hbit
  refine ⟨i, hi, y, hy, harrived, fun hne => ?_⟩
  rw [bit_setBroken, bit_setBroken]
  exact hnear hne

theorem Consistent.set (hcons : F.Consistent cl) (hi : F.firstDifference x d = some i)
    (hgood : F.GoodBit cl w x d i) : F.Consistent (cl.set x d w) := by
  intro w' z e hbit
  by_cases hnew : z = x ∧ e = d ∧ w' = w
  · obtain ⟨rfl, rfl, rfl⟩ := hnew
    obtain ⟨y, hy, harrived, hnear⟩ := hgood
    refine ⟨i, hi, y, hy, fun heq => ?_, fun hne => ⟨bit_set_of_bit (hnear hne).1 _ _ _, ?_⟩⟩
    · exact (harrived heq).imp_right fun h => routed_set_of_routed h _ _ _
    · rw [bit_set, (hnear hne).2]
      simp [Way.other_ne]
  · rw [bit_set, decide_eq_false hnew, Bool.false_or] at hbit
    obtain ⟨k, hk, y, hy, harrived, hnear⟩ := hcons w' z e hbit
    refine ⟨k, hk, y, hy, fun heq => ?_, fun hne => ⟨bit_set_of_bit (hnear hne).1 _ _ _, ?_⟩⟩
    · exact (harrived heq).imp_right fun h => routed_set_of_routed h _ _ _
    · rw [bit_set, (hnear hne).2, Bool.or_false, decide_eq_false_iff_not]
      rintro ⟨rfl, rfl, rfl⟩
      have hki := firstDifference_neighbor hk hy hne
      rw [hi] at hki
      cases hki
      obtain ⟨y', hy', -, hnear'⟩ := hgood
      rw [neighbor_symm hy] at hy'
      cases hy'
      have hback := (hnear' (firstDifference_eq_some_iff.mp hk).1).2
      rw [Way.other_other, hbit] at hback
      cases hback

theorem Consistent.bit_other_eq_false (hcons : F.Consistent cl) (hfresh : cl.routed src d = false)
    (hi : F.firstDifference src d = some i) (hy : F.neighbor w src i = some y)
    (hne : F.coords y i ≠ F.coords d i) : cl.bit w.other y d = false := by
  rw [← Bool.not_eq_true]
  intro hbit
  obtain ⟨k, hk, x, hx, -, hnear⟩ := hcons w.other y d hbit
  have hki := firstDifference_neighbor hi hy hne
  rw [hk] at hki
  cases hki
  rw [neighbor_symm hy] at hx
  cases hx
  have hsrc := (hnear (firstDifference_eq_some_iff.mp hi).1).1
  rw [bit_eq_false_of_not_routed hfresh] at hsrc
  cases hsrc

/-! ## One attempt -/

/-- What a walk from `x` towards `d` does: it sets bits of switches that are nearer only,
and at `x` none against its direction. -/
structure WalkResult (F : DorFabric n D) (d x : Fin n) (dir : DorDirection)
    (cl cl' : DorClosure n) (ok : Bool) : Prop where
  consistent : F.Consistent cl'
  outside : ∀ w z, F.walkBound x d dir < F.walkBound z d dir → cl'.bit w z d = cl.bit w z d
  routed : ok = true → x = d ∨ cl'.routed x d = true
  committed : ∀ w : Way, dir = w.direction → cl'.bit w.other x d = false

def MayWalk (cl : DorClosure n) (d x : Fin n) (dir : DorDirection) : Prop :=
  ∀ w : Way, dir = w.direction → cl.bit w.other x d = false

theorem mayWalk_onward (hfree : F.coords y i ≠ F.coords d i → cl.bit w.other y d = false) :
    MayWalk cl d y (F.onward w y d i) := by
  intro w' hw'
  unfold onward at hw'
  split at hw'
  · cases w' <;> cases hw'
  next hne =>
    cases Way.direction_injective hw'
    exact hfree hne

theorem walkBound_direction_le (F : DorFabric n D) (w : Way) (z d : Fin n) :
    F.walkBound z d w.direction ≤ F.walkBound z d .any := by
  cases hk : F.firstDifference z d with
  | none => simp [walkBound, hk]
  | some k =>
    have hlt := F.dist_lt w z d k
    rw [walkBound_committed hk, walkBound, hk]
    simp only
    omega

/-- The switches that a walk from a neighbour reaches are nearer than the source and than
all switches that the walk from the source does not reach. -/
theorem walkBound_onward_lt (hi : F.firstDifference src d = some i) (hy : F.neighbor w src i = some y)
    (hdir : dir = .any ∨ dir = w.direction)
    (hz : z = src ∨ F.walkBound src d dir < F.walkBound z d dir) :
    F.walkBound y d (F.onward w y d i) < F.walkBound z d (F.onward w y d i) := by
  obtain ⟨hne, -⟩ := firstDifference_eq_some_iff.mp hi
  have hself : F.walkBound y d (F.onward w y d i) < F.walkBound src d w.direction :=
    walkBound_neighbor hi hy (.inr rfl)
  have hstart : F.walkBound src d w.direction ≤ F.walkBound src d (F.onward w y d i) := by
    unfold onward
    split
    · exact F.walkBound_direction_le w src d
    · exact le_refl _
  rcases hz with rfl | hz
  · exact hself.trans_le hstart
  · rcases hdir with rfl | rfl
    · -- such a switch differs from `d` in an earlier dimension
      cases hk : F.firstDifference z d with
      | none => simp [walkBound, hk] at hz
      | some k =>
        simp only [walkBound, hi, hk] at hz
        have hki : k < i := by
          rcases lt_trichotomy k i with hlt | rfl | hlt
          · exact hlt
          · exact absurd hz (lt_irrefl _)
          · have := F.later_add_le hlt
            omega
        have hlater := F.later_add_le hki
        have hzlater : F.later k ≤ F.walkBound z d (F.onward w y d i) := by
          simp only [walkBound, hk]
          omega
        have hlt := F.dist_lt w src d i
        rw [walkBound_committed hi] at hself
        omega
    · have hle : F.walkBound z d w.direction ≤ F.walkBound z d (F.onward w y d i) := by
        unfold onward
        split
        · exact F.walkBound_direction_le w z d
        · exact le_refl _
      omega

def WalksWell (F : DorFabric n D) (d : Fin n)
    (walk : DorClosure n → Fin n → DorDirection → Option (DorClosure n × Bool)) : Prop :=
  ∀ cl x dir cl' ok, walk cl x dir = some (cl', ok) → F.Consistent cl → MayWalk cl d x dir →
    F.WalkResult d x dir cl cl' ok

theorem WalkResult.goodBit (hr : F.WalkResult d y (F.onward w y d i) clA cl' true)
    (hy : F.neighbor w src i = some y) : F.GoodBit cl' w src d i := by
  refine ⟨y, hy, fun _ => hr.routed rfl, fun hne => ?_⟩
  have hother : cl'.bit w.other y d = false := hr.committed w (if_neg hne)
  rcases hr.routed rfl with rfl | hrouted
  · exact absurd rfl hne
  · rw [routed_iff w, hother] at hrouted
    exact ⟨by simpa using hrouted, hother⟩

theorem visit_result (hwalk : F.WalksWell d walk) (hcons : F.Consistent cl)
    (hi : F.firstDifference src d = some i) (hdir : dir = .any ∨ dir = w.direction)
    (hfree : ∀ y, F.neighbor w src i = some y → F.coords y i ≠ F.coords d i →
      cl.bit w.other y d = false)
    (h : F.visit walk i src d w cl = some (cl', ok)) :
    F.Consistent cl' ∧
      (∀ w' z, z = src ∨ F.walkBound src d dir < F.walkBound z d dir →
        cl'.bit w' z d = cl.bit w' z d) ∧
      (ok = true → F.GoodBit cl' w src d i) := by
  rcases visit_eq_some h with ⟨-, rfl, rfl⟩ | ⟨hd, rfl, rfl⟩ | ⟨y, hy, -, hw⟩
  · exact ⟨hcons, fun _ _ _ => rfl, fun h => nomatch h⟩
  · exact ⟨hcons, fun _ _ _ => rfl, fun _ => ⟨d, hd, fun _ => .inl rfl, fun hne => absurd rfl hne⟩⟩
  · have hr := hwalk _ _ _ _ _ hw hcons (mayWalk_onward (hfree y hy))
    refine ⟨hr.consistent, fun w' z hz => hr.outside w' z (walkBound_onward_lt hi hy hdir hz), ?_⟩
    rintro rfl
    exact hr.goodBit hy

structure AttemptResult (F : DorFabric n D) (i : Fin D) (d src : Fin n) (dir : DorDirection)
    (w : Way) (cl cl' : DorClosure n) : Prop where
  consistent : F.Consistent cl'
  outside : ∀ w' z, F.walkBound src d dir < F.walkBound z d dir → cl'.bit w' z d = cl.bit w' z d
  other : dir ≠ .any ∨ F.goes i dir (F.coords src i) (F.coords d i) w.other = true →
    cl'.bit w.other src d = cl.bit w.other src d
  /-- The other way may still be attempted. -/
  free : cl.routed src d = false → F.goes i dir (F.coords src i) (F.coords d i) w.other = true →
    ∀ y, F.neighbor w.other src i = some y → F.coords y i ≠ F.coords d i → cl'.bit w y d = false

theorem bit_same_routed (hsame : ∀ w, cl'.bit w x d = cl.bit w x d) :
    cl'.routed x d = cl.routed x d := by
  rw [Bool.eq_iff_iff, routed_iff .left, routed_iff .left, hsame, hsame]

theorem ne_of_walkBound_lt (h : F.walkBound x d dir < F.walkBound z d dir) : z ≠ x := by
  rintro rfl
  exact lt_irrefl _ h

theorem ne_of_neighbor (hi : F.firstDifference src d = some i) (hy : F.neighbor w src i = some y) :
    y ≠ src := by
  rintro rfl
  have hstep := dist_neighbor hy (firstDifference_eq_some_iff.mp hi).1
  omega

theorem tryWay_result (hwalk : F.WalksWell d walk) (hcons : F.Consistent cl)
    (hi : F.firstDifference src d = some i) (hdir : dir = .any ∨ dir = w.direction)
    (hfree : ∀ y, F.neighbor w src i = some y → F.coords y i ≠ F.coords d i →
      cl.bit w.other y d = false)
    (hlonger : longer = true → dir = .any ∧ cl.routed src d = false ∧
      F.goes i .any (F.coords src i) (F.coords d i) w.other = false)
    (hshort : longer = false → dir ≠ .any ∨
      F.goes i dir (F.coords src i) (F.coords d i) w.other = true)
    (h : F.tryWay walk i src d longer w cl = some cl') : F.AttemptResult i d src dir w cl cl' := by
  rcases tryWay_eq_some h with ⟨clA, hvisit, rfl⟩ | ⟨hlong, clA, y, clB, ok, hvisit, hy, hw, rfl⟩ |
      ⟨hvisit, -⟩
  · obtain ⟨hA, houtside, hgood⟩ := visit_result hwalk hcons hi hdir hfree hvisit
    have hfresh := bit_same_routed fun w' => houtside w' src (.inl rfl)
    refine ⟨hA.set hi (hgood rfl), fun w' z hz => ?_, fun _ => ?_, fun hcl _ y hy hne => ?_⟩
    · rw [bit_set_of_ne (.inl (ne_of_walkBound_lt hz)), houtside w' z (.inr hz)]
    · rw [bit_set, houtside w.other src (.inl rfl)]
      simp [Way.other_ne]
    · rw [bit_set_of_ne (.inl (ne_of_neighbor hi hy))]
      have hback := hA.bit_other_eq_false (hfresh.trans hcl) hi hy hne
      rwa [Way.other_other] at hback
  · obtain ⟨rfl, hcl, hnot⟩ := hlonger hlong
    obtain ⟨hA, houtside, -⟩ := visit_result hwalk hcons hi hdir hfree hvisit
    have hfresh := (bit_same_routed fun w' => houtside w' src (.inl rfl)).trans hcl
    have hne := firstDifference_eq_some_iff.mp hi |>.1
    rw [← onward_of_not_goes hnot hy hne] at hw
    have hr := hwalk _ _ _ _ _ hw hA
      (mayWalk_onward fun hyne => hA.bit_other_eq_false hfresh hi hy hyne)
    have hkeep : ∀ w' z, z = src ∨ F.walkBound src d .any < F.walkBound z d .any →
        clB.bit w' z d = cl.bit w' z d := fun w' z hz =>
      (hr.outside w' z (walkBound_onward_lt hi hy (.inl rfl) hz)).trans (houtside w' z hz)
    constructor
    · cases ok with
      | true => exact hr.consistent.set hi (hr.goodBit hy)
      | false => exact hr.consistent
    · intro w' z hz
      cases ok with
      | true =>
        show (clB.set src d w.other).bit w' z d = _
        rw [bit_set_of_ne (.inl (ne_of_walkBound_lt hz)), hkeep w' z (.inr hz)]
      | false => exact hkeep w' z (.inr hz)
    · rintro (hany | hgo)
      · exact absurd rfl hany
      · rw [hnot] at hgo
        cases hgo
    · intro _ hgo
      rw [hnot] at hgo
      cases hgo
  · obtain ⟨hA, houtside, -⟩ := visit_result hwalk hcons hi hdir hfree hvisit
    refine ⟨hA, fun w' z hz => houtside w' z (.inr hz), fun _ => houtside _ _ (.inl rfl), ?_⟩
    intro hcl _ y hy hne
    have hfresh := (bit_same_routed fun w' => houtside w' src (.inl rfl)).trans hcl
    have hback := hA.bit_other_eq_false hfresh hi hy hne
    rwa [Way.other_other] at hback

theorem attempt_result (hwalk : F.WalksWell d walk) (hcons : F.Consistent cl)
    (hi : F.firstDifference src d = some i)
    (hfree : F.goes i dir (F.coords src i) (F.coords d i) w = true →
      ∀ y, F.neighbor w src i = some y → F.coords y i ≠ F.coords d i → cl.bit w.other y d = false)
    (hfresh : F.goes i dir (F.coords src i) (F.coords d i) w.other = false → cl.routed src d = false)
    (h : F.attempt walk i src d dir w cl = some cl') : F.AttemptResult i d src dir w cl cl' := by
  unfold DorTopology.attempt at h
  simp only at h
  split at h
  next hgo =>
    apply tryWay_result hwalk hcons hi (any_or_direction_of_goes hgo) (hfree hgo) ?_ ?_ h
    · intro hlong
      obtain ⟨hany, hnot⟩ := (Bool.and_eq_true _ _).mp hlong
      have hany : dir = .any := of_decide_eq_true hany
      have hnot : F.goes i dir (F.coords src i) (F.coords d i) w.other = false := by simpa using hnot
      exact ⟨hany, hfresh hnot, hany ▸ hnot⟩
    · intro hshort
      rw [Bool.and_eq_false_iff] at hshort
      exact hshort.imp of_decide_eq_false (by simp)
  next =>
    cases h
    refine ⟨hcons, fun _ _ _ => rfl, fun _ => rfl, fun hcl _ y hy hne => ?_⟩
    have hback := hcons.bit_other_eq_false hcl hi hy hne
    rwa [Way.other_other] at hback

/-! ## Whole walks -/

theorem isPathRealizable_result (fuel : Nat) (d : Fin n) : F.WalksWell d (F.walkTo fuel d) := by
  induction fuel with
  | zero => intro cl x dir cl' ok h; cases h
  | succ fuel ih =>
    intro cl x dir cl' ok h hcons hmay
    rcases isPathRealizable_eq_some h with ⟨rfl, rfl, rfl⟩ | ⟨-, hrouted, rfl, rfl⟩ |
        ⟨-, hfresh, -, rfl, rfl⟩ | ⟨i, clA, clB, hi, hfresh, -, hA, hB, rfl, rfl⟩
    · exact ⟨hcons, fun _ _ _ => rfl, fun _ => .inl rfl, hmay⟩
    · exact ⟨hcons, fun _ _ _ => rfl, fun _ => .inr hrouted, hmay⟩
    · exact ⟨hcons, fun _ _ _ => rfl, fun h => (nomatch h), hmay⟩
    · have hrA := attempt_result ih hcons hi
        (fun _ y hy hne => hcons.bit_other_eq_false hfresh hi hy hne) (fun _ => hfresh) hA
      have hsame : F.goes i dir (F.coords x i) (F.coords d i) .right = false → clA = cl := by
        intro hnot
        simp only [DorTopology.attempt, hnot] at hA
        exact (Option.some.inj hA).symm
      have hrB := attempt_result (w := .left) ih hrA.consistent hi
        (fun hgo y hy hne => hrA.free hfresh hgo y hy hne) (fun hnot => hsame hnot ▸ hfresh) hB
      have hbits : ∀ w, (if clB.routed x d = true then clB else clB.setBroken x d).bit w = clB.bit w := by
        intro w
        split
        · rfl
        · exact bit_setBroken _ _ _ _
      refine ⟨?_, fun w z hz => ?_, fun hok => ?_, fun w hw => ?_⟩
      · split
        · exact hrB.consistent
        · exact hrB.consistent.setBroken _ _
      · rw [hbits, hrB.outside w z hz, hrA.outside w z hz]
      · rw [if_pos hok]
        exact .inr hok
      · -- a committed walk attempts its own way only
        rw [hbits]
        subst hw
        cases w with
        | right =>
          have hnot : F.goes i Way.right.direction (F.coords x i) (F.coords d i) .left = false := rfl
          simp only [DorTopology.attempt, hnot] at hB
          cases hB
          rw [hrA.other (.inl (by decide))]
          exact bit_eq_false_of_not_routed hfresh _
        | left =>
          rw [hrB.other (.inl (by decide)), hsame rfl]
          exact bit_eq_false_of_not_routed hfresh _

theorem calcDorClosure_consistent (F : DorFabric n D) (switches : List (Fin n)) :
    ∃ cl, F.calcDorClosure switches = some cl ∧ F.Consistent cl := by
  apply foldlM_invariant (P := fun _ _ => True) (J := fun _ cl => F.Consistent cl)
      (FoldMeets.of_forall (fun _ _ => trivial) _ _) F.consistent_empty
  intro _ p _ cl hcons _
  split
  · exact ⟨cl, rfl, hcons⟩
  next hne =>
    obtain ⟨i, hi⟩ := F.exists_firstDifference hne
    have hfuel : F.walkBound p.1 p.2 .any < F.walkFuel := by
      simp only [walkBound, hi]
      exact F.later_add_lt_walkFuel i
    obtain ⟨⟨cl', ok⟩, hcl'⟩ : ∃ r, F.isPathRealizable F.walkFuel cl p.1 p.2 .any = some r :=
      isPathRealizable_isSome hfuel
    refine ⟨cl', by rw [hcl']; rfl, ?_⟩
    exact (isPathRealizable_result F.walkFuel p.2 cl p.1 .any cl' ok hcl' hcons
      (fun w hw => by cases w <;> cases hw)).consistent

end DorFabric

/-!
## Routes in dimension order

The routes that a consistent closure gives arrive, and leave no dimension again.
-/

namespace DorFabric

open DorTopology DorClosure

variable {n D : Nat} {F : DorFabric n D} {cl : DorClosure n} {x y d : Fin n} {i k : Fin D} {w : Way}

theorem mem_dorNeighbors_iff (hi : F.firstDifference x d = some i) {o : Option (Fin n)} :
    o ∈ F.dorNeighbors cl x d ↔ ∃ w, cl.bit w x d = true ∧ o = F.neighbor w x i := by
  have hsplit : ∀ p : Way → Prop, (∃ w, p w) ↔ p .left ∨ p .right := by
    intro p
    constructor
    · rintro ⟨w, hw⟩
      cases w with
      | left => exact .inl hw
      | right => exact .inr hw
    · exact fun h => h.elim (fun h => ⟨_, h⟩) fun h => ⟨_, h⟩
  unfold DorTopology.dorNeighbors DorTopology.routingDimension
  rw [hi, hsplit, List.mem_append]
  apply or_congr
  · by_cases hbit : cl.dorLeft x d = true <;> simp [hbit, bit, neighbor]
  · by_cases hbit : cl.dorRight x d = true <;> simp [hbit, bit, neighbor]

def remaining (F : DorFabric n D) (cl : DorClosure n) (d x : Fin n) : Nat :=
  match F.firstDifference x d with
  | none => 0
  | some i =>
    F.later i +
      if cl.dorLeft x d && cl.dorRight x d then F.dimensionLength i
      else if cl.dorLeft x d then F.dist .left x d i
      else F.dist .right x d i

theorem remaining_le (hi : F.firstDifference x d = some i) :
    F.remaining cl d x ≤ F.later i + F.dimensionLength i := by
  have hleft := F.dist_lt .left x d i
  have hright := F.dist_lt .right x d i
  unfold remaining
  rw [hi]
  simp only
  split_ifs <;> omega

theorem remaining_of_bit (hi : F.firstDifference x d = some i) (hbit : cl.bit w x d = true)
    (hother : cl.bit w.other x d = false) : F.remaining cl d x = F.later i + F.dist w x d i := by
  unfold remaining
  rw [hi]
  cases w <;> simp_all [bit, Way.other]

theorem le_remaining_of_bit (hi : F.firstDifference x d = some i) (hbit : cl.bit w x d = true) :
    F.later i + F.dist w x d i ≤ F.remaining cl d x := by
  cases hother : cl.bit w.other x d with
  | false => exact (remaining_of_bit hi hbit hother).ge
  | true =>
    have hlt := F.dist_lt w x d i
    unfold remaining
    rw [hi]
    cases w <;> simp_all [bit, Way.other] <;> omega

def OnRoute (cl : DorClosure n) (d x : Fin n) : Prop := x = d ∨ cl.routed x d = true

theorem Consistent.neighbor_of_mem (hcons : F.Consistent cl) {o : Option (Fin n)}
    (ho : o ∈ F.dorNeighbors cl x d) :
    ∃ w i y, F.firstDifference x d = some i ∧ cl.bit w x d = true ∧ o = some y ∧
      F.neighbor w x i = some y := by
  cases hi : F.firstDifference x d with
  | none => simp [DorTopology.dorNeighbors, DorTopology.routingDimension, hi] at ho
  | some i =>
    obtain ⟨w, hbit, rfl⟩ := (mem_dorNeighbors_iff hi).mp ho
    obtain ⟨k, hk, y, hy, -⟩ := hcons w x d hbit
    rw [hi] at hk
    cases hk
    exact ⟨w, i, y, rfl, hbit, hy, hy⟩

theorem Consistent.hop_step (hcons : F.Consistent cl) (hhop : F.Hop cl d x y) :
    OnRoute cl d y ∧ F.remaining cl d y < F.remaining cl d x := by
  obtain ⟨w, i, y', hi, hbit, hyy', hy⟩ := hcons.neighbor_of_mem hhop
  cases hyy'
  obtain ⟨k, hk, y', hy', harrived, hnear⟩ := hcons w x d hbit
  rw [hi] at hk
  cases hk
  rw [hy] at hy'
  cases hy'
  have hne := (firstDifference_eq_some_iff.mp hi).1
  have hx := le_remaining_of_bit hi hbit
  have hstep := dist_neighbor hy hne
  by_cases heq : F.coords y i = F.coords d i
  · refine ⟨harrived heq, ?_⟩
    cases hk : F.firstDifference y d with
    | none =>
      have hzero : F.remaining cl d y = 0 := by simp [remaining, hk]
      omega
    | some k =>
      have hlater := F.later_add_le (lt_firstDifference_neighbor hi hy heq hk)
      have hle : F.remaining cl d y ≤ F.later k + F.dimensionLength k := remaining_le hk
      omega
  · obtain ⟨hsame, hother⟩ := hnear heq
    refine ⟨.inr (routed_of_bit hsame), ?_⟩
    rw [remaining_of_bit (firstDifference_neighbor hi hy heq) hsame hother]
    omega

theorem Consistent.hop_coords (hcons : F.Consistent cl) (hhop : F.Hop cl d x y)
    (hk : F.coords x k = F.coords d k) : F.coords y k = F.coords d k := by
  obtain ⟨w, i, y', hi, -, hyy', hy⟩ := hcons.neighbor_of_mem hhop
  cases hyy'
  have hki : k ≠ i := by
    rintro rfl
    exact (firstDifference_eq_some_iff.mp hi).1 hk
  rw [neighbor_coords hy hki, hk]

theorem Consistent.exists_hop (hcons : F.Consistent cl) (hx : OnRoute cl d x) :
    x = d ∨ ∃ y, F.Hop cl d x y := by
  apply hx.imp_right
  intro hrouted
  obtain ⟨w, hbit⟩ : ∃ w, cl.bit w x d = true :=
    ((routed_iff .left).mp hrouted).elim (fun h => ⟨_, h⟩) fun h => ⟨_, h⟩
  obtain ⟨i, hi, y, hy, -⟩ := hcons w x d hbit
  exact ⟨y, (mem_dorNeighbors_iff hi).mpr ⟨w, hbit, hy.symm⟩⟩

theorem Consistent.remaining_lt (hcons : F.Consistent cl) (hx : cl.routed x d = true) :
    F.remaining cl d x < F.walkFuel := by
  obtain ⟨w, hbit⟩ : ∃ w, cl.bit w x d = true :=
    ((routed_iff .left).mp hx).elim (fun h => ⟨_, h⟩) fun h => ⟨_, h⟩
  obtain ⟨i, hi, -⟩ := hcons w x d hbit
  exact (remaining_le hi).trans_lt (F.later_add_lt_walkFuel i)

/-- Every pair with a bit is routed: whichever of the neighbours a packet goes to, it
arrives without visiting a switch twice; on the way each switch has a bit and a neighbour for
each of its bits, and what agrees with the destination is left alone. -/
theorem dorClosure_sound (F : DorFabric n D) (switches : List (Fin n)) :
    ∃ cl, F.calcDorClosure switches = some cl ∧
      ∀ i j, cl.dorLeft i j = true ∨ cl.dorRight i j = true →
        Delivers (F.Hop cl j) j F.walkFuel i ∧
          ∀ l, (i :: l).IsChain (F.Hop cl j) → ∀ x ∈ i :: l,
            (x ≠ j → (cl.dorLeft x j = true ∨ cl.dorRight x j = true) ∧
              none ∉ F.dorNeighbors cl x j) ∧
            ∀ k, F.coords i k = F.coords j k → F.coords x k = F.coords j k := by
  obtain ⟨cl, hcl, hcons⟩ := F.calcDorClosure_consistent switches
  refine ⟨cl, hcl, fun i j hbits => ?_⟩
  have hrouted : cl.routed i j = true := (Bool.or_eq_true _ _).mpr hbits
  constructor
  · exact (Delivers.of_measure (fun x y _ hhop => hcons.hop_step hhop)
      (fun x hx => hcons.exists_hop hx) (.inr hrouted)).mono (hcons.remaining_lt hrouted).le
  · intro l hchain x hx
    constructor
    · intro hne
      have honroute : OnRoute cl j x :=
        forall_of_isChain (P := OnRoute cl j) (fun _ _ _ hhop => (hcons.hop_step hhop).1)
          (.inr hrouted) hchain x hx
      refine ⟨(Bool.or_eq_true _ _).mp (honroute.resolve_left hne), fun hnone => ?_⟩
      obtain ⟨_, _, _, _, _, h, _⟩ := hcons.neighbor_of_mem hnone
      cases h
    · intro k hk
      exact forall_of_isChain (P := fun x => F.coords x k = F.coords j k)
        (fun _ _ hxk hhop => hcons.hop_coords hhop hxk) hk hchain x hx

end DorFabric

end OpaFm.Dor
