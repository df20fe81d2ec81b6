import OpaFm.Dor.Proofs.Geometry
import OpaFm.Dor.Proofs.Walk
import OpaFm.Lib.Fold

/-!
# Completeness of the closure

What the three bits of a pair say about the paths in dimension order, where every walk that
is committed to one direction comes to the same answer as one that is not.
-/

namespace OpaFm.Dor

open OpaFm.Lib

namespace DorFabric

open DorTopology DorClosure

variable {n D : Nat} {F : DorFabric n D} {cl cl' clA clB : DorClosure n} {src x y d e : Fin n}
  {i : Fin D} {dir : DorDirection} {w : Way} {ok longer : Bool}
  {walk : DorClosure n → Fin n → DorDirection → Option (DorClosure n × Bool)}

/-! ## What the bits mean -/

def ShorterWay (F : DorFabric n D) (w : Way) (x d : Fin n) : Prop :=
  ∃ i, F.firstDifference x d = some i ∧ F.goes i .any (F.coords x i) (F.coords d i) w = true

theorem shorterWay_iff (hi : F.firstDifference x d = some i) :
    F.ShorterWay w x d ↔ F.goes i .any (F.coords x i) (F.coords d i) w = true := by
  constructor
  · rintro ⟨k, hk, hgo⟩
    rw [hi] at hk
    cases hk
    exact hgo
  · exact fun hgo => ⟨i, hi, hgo⟩

theorem shorterWay_or_other (hi : F.firstDifference x d = some i) (w : Way) :
    F.ShorterWay w x d ∨ F.ShorterWay w.other x d := by
  rw [shorterWay_iff hi, shorterWay_iff hi]
  exact goes_or_other (firstDifference_eq_some_iff.mp hi).1

def Wanted (F : DorFabric n D) (w : Way) (x d : Fin n) : Prop :=
  F.WayTo w d x ∧ (F.ShorterWay w x d ∨ ¬F.WayTo w.other d x)

theorem Wanted.dorPath (h : F.Wanted w x d) : F.DorPath d x := dorPath_iff.mpr (.inr ⟨w, h.1⟩)

theorem exists_wanted (hi : F.firstDifference x d = some i) (hpath : F.DorPath d x) :
    ∃ w, F.Wanted w x d := by
  obtain ⟨w, hw⟩ := (dorPath_iff.mp hpath).resolve_left (ne_of_firstDifference hi)
  by_cases hother : F.WayTo w.other d x
  · rcases shorterWay_or_other hi w with hshort | hshort
    · exact ⟨w, hw, .inl hshort⟩
    · exact ⟨w.other, hother, .inl hshort⟩
  · exact ⟨w, hw, .inr hother⟩

structure Sound (F : DorFabric n D) (cl : DorClosure n) : Prop where
  bit : ∀ w x e, cl.bit w x e = true → F.Wanted w x e
  broken : ∀ x e, cl.dorBroken x e = true → ¬F.DorPath e x

structure Exact (F : DorFabric n D) (cl : DorClosure n) (x e : Fin n) : Prop where
  bit : ∀ w, cl.bit w x e = true ↔ F.Wanted w x e
  broken : cl.dorBroken x e = true ↔ ¬F.DorPath e x

structure SameEntry (cl cl' : DorClosure n) (x e : Fin n) : Prop where
  bit : ∀ w, cl'.bit w x e = cl.bit w x e
  broken : cl'.dorBroken x e = cl.dorBroken x e

theorem SameEntry.refl (cl : DorClosure n) (x e : Fin n) : SameEntry cl cl x e := ⟨fun _ => rfl, rfl⟩

theorem SameEntry.exact (h : SameEntry cl cl' x e) (hexact : F.Exact cl x e) : F.Exact cl' x e := by
  constructor
  · intro w
    rw [h.bit, hexact.bit]
  · rw [h.broken, hexact.broken]

structure EmptyEntry (cl : DorClosure n) (x e : Fin n) : Prop where
  bit : ∀ w, cl.bit w x e = false
  broken : cl.dorBroken x e = false

theorem Sound.exact_self (h : F.Sound cl) (x : Fin n) : F.Exact cl x x := by
  constructor
  · intro w
    constructor
    · exact h.bit w x x
    · rintro ⟨⟨i, k, y, hi, -⟩, -⟩
      exact absurd rfl (ne_of_firstDifference hi)
  · constructor
    · exact h.broken x x
    · exact fun hno => absurd .here hno

structure Settles (F : DorFabric n D) (cl cl' : DorClosure n) : Prop where
  sound : F.Sound cl'
  entries : ∀ x e, SameEntry cl cl' x e ∨ F.Exact cl' x e

theorem Settles.refl (h : F.Sound cl) : F.Settles cl cl := ⟨h, fun x e => .inl (.refl cl x e)⟩

theorem Settles.exact (h : F.Settles cl cl') (hexact : F.Exact cl x e) : F.Exact cl' x e :=
  (h.entries x e).elim (fun hsame => hsame.exact hexact) id

theorem Settles.bit (h : F.Settles cl cl') (hbit : F.Wanted w x e → cl.bit w x e = true)
    (hw : F.Wanted w x e) : cl'.bit w x e = true := by
  rcases h.entries x e with hsame | hexact
  · rw [hsame.bit, hbit hw]
  · exact (hexact.bit w).mpr hw

theorem Sound.set (h : F.Sound cl) (hw : F.Wanted w x d) : F.Sound (cl.set x d w) := by
  constructor
  · intro w' z e hbit
    rw [bit_set, Bool.or_eq_true, decide_eq_true_eq] at hbit
    rcases hbit with ⟨rfl, rfl, rfl⟩ | hbit
    · exact hw
    · exact h.bit w' z e hbit
  · intro z e hbroken
    apply h.broken z e
    cases w <;> exact hbroken

theorem sameEntry_set (hne : x ≠ src ∨ e ≠ d) : SameEntry cl (cl.set src d w) x e := by
  constructor
  · exact fun w' => bit_set_of_ne hne
  · cases w <;> rfl

/-! ## Committed walks -/

/-- A walk in one direction only comes to the right answer: there is no way in the other
direction, or there is a way in this one and the other one is not shorter. -/
def Committable (F : DorFabric n D) (d x : Fin n) (dir : DorDirection) : Prop :=
  ∀ w : Way, dir = w.direction →
    ¬F.WayTo w.other d x ∨ F.WayTo w d x ∧ ¬F.ShorterWay w.other x d

theorem committable_any (F : DorFabric n D) (d x : Fin n) : F.Committable d x .any := by
  intro w hw
  cases w <;> cases hw

theorem Committable.dorPath_iff (h : F.Committable d x w.direction) (hne : x ≠ d) :
    F.DorPath d x ↔ F.WayTo w d x := by
  rw [DorFabric.dorPath_iff, or_iff_right hne]
  constructor
  · rintro ⟨w', hw'⟩
    rcases h w rfl with hno | ⟨hway, -⟩
    · have : w' ≠ w.other := by
        rintro rfl
        exact hno hw'
      cases w <;> cases w' <;> first | exact hw' | exact absurd rfl this
    · exact hway
  · exact fun hway => ⟨w, hway⟩

theorem not_shorterWay_neighbor (hi : F.firstDifference x d = some i)
    (hy : F.neighbor w x i = some y) (hne : F.coords y i ≠ F.coords d i)
    (h : F.ShorterWay w x d) : ¬F.ShorterWay w.other y d := by
  have hnex := (firstDifference_eq_some_iff.mp hi).1
  have hstep := dist_neighbor hy hnex
  have hback := dist_other_neighbor hy hne
  rw [shorterWay_iff (firstDifference_neighbor hi hy hne)]
  rw [shorterWay_iff hi] at h
  cases htor : F.toroidal i with
  | true =>
    rw [goes_any_iff_of_toroidal htor hne, Way.other_other]
    rw [goes_any_iff_of_toroidal htor hnex] at h
    omega
  | false =>
    rw [goes_any_iff_of_mesh htor hne]
    rw [goes_any_iff_of_mesh htor hnex] at h
    have hnext := neighbor_coords_of_mesh htor hy
    cases w <;> simp only [Way.other] at h hnext ⊢ <;> omega

theorem Committable.neighbor (h : F.Committable d x w.direction)
    (hi : F.firstDifference x d = some i) (hy : F.neighbor w x i = some y)
    (hne : F.coords y i ≠ F.coords d i) : F.Committable d y w.direction := by
  intro w' hw'
  cases Way.direction_injective hw'
  rcases h w rfl with hno | ⟨hway, hnot⟩
  · exact .inl fun hback => hno (wayTo_other_of_neighbor hi hy hne hback)
  · have hshort := (shorterWay_or_other hi w).resolve_right hnot
    obtain ⟨y', hy', -, hnear⟩ := (wayTo_iff hi).mp hway
    rw [hy] at hy'
    cases hy'
    exact .inr ⟨hnear hne, not_shorterWay_neighbor hi hy hne hshort⟩

theorem LongArcsClose.committable (hC : F.LongArcsClose) (hi : F.firstDifference x d = some i)
    (hy : F.neighbor w x i = some y) (hne : F.coords y i ≠ F.coords d i)
    (hshort : F.ShorterWay w x d) : F.Committable d y w.direction := by
  intro w' hw'
  cases Way.direction_injective hw'
  by_cases hback : F.WayTo w.other d y
  · refine .inr ⟨?_, not_shorterWay_neighbor hi hy hne hshort⟩
    have hnex := (firstDifference_eq_some_iff.mp hi).1
    rw [shorterWay_iff hi] at hshort
    cases htor : F.toroidal i with
    | true =>
      rw [goes_any_iff_of_toroidal htor hnex] at hshort
      have hiy := firstDifference_neighbor hi hy hne
      obtain ⟨z, hz, hzd, hpath⟩ := hback.walkBy_dist hiy
      have hother := dist_other_neighbor hy hne
      have hround := dist_add_other (w := w) hnex
      have hlt := F.dist_lt w.other y d i
      have hround' := hC.walkBy_other htor hz (by omega) (by omega)
      rw [Way.other_other] at hround'
      exact ⟨i, _, z, hiy, hround', hzd, hpath⟩
    | false =>
      have hboth := (wayTo_other_of_neighbor hi hy hne hback).goes_of_mesh hi htor
      rw [goes_any_iff_of_mesh htor hnex] at hshort hboth
      cases w <;> simp only [Way.other] at hshort hboth <;> omega
  · exact .inl hback

/-! ## One attempt -/

def WalksExactly (F : DorFabric n D) (d : Fin n)
    (walk : DorClosure n → Fin n → DorDirection → Option (DorClosure n × Bool)) : Prop :=
  ∀ cl x dir cl' ok, walk cl x dir = some (cl', ok) → F.Sound cl → F.Committable d x dir →
    F.Settles cl cl' ∧ (ok = true ↔ F.DorPath d x)

theorem visit_exact (hwalk : F.WalksExactly d walk) (hsound : F.Sound cl)
    (hi : F.firstDifference src d = some i)
    (hcommit : ∀ y, F.neighbor w src i = some y → F.coords y i ≠ F.coords d i →
      F.Committable d y w.direction)
    (h : F.visit walk i src d w cl = some (cl', ok)) :
    F.Settles cl cl' ∧ (ok = true ↔ F.WayTo w d src) := by
  rw [wayTo_iff hi]
  rcases visit_eq_some h with ⟨hnone, rfl, rfl⟩ | ⟨hd, rfl, rfl⟩ | ⟨y, hy, hyd, hw⟩
  · exact ⟨.refl hsound, by simp [hnone]⟩
  · refine ⟨.refl hsound, iff_of_true rfl ⟨d, hd, fun _ => .here, fun hne => absurd rfl hne⟩⟩
  · have hyonly : ∀ p : Fin n → Prop, (∃ y, F.neighbor w src i = some y ∧ p y) ↔ p y := by
      simp [hy]
    rw [hyonly]
    unfold onward at hw
    split at hw
    next heq =>
      obtain ⟨hset, hok⟩ := hwalk _ _ _ _ _ hw hsound (F.committable_any d y)
      exact ⟨hset, by simp [hok, heq]⟩
    next hne =>
      have hc := hcommit y hy hne
      obtain ⟨hset, hok⟩ := hwalk _ _ _ _ _ hw hsound hc
      exact ⟨hset, by simp [hok, hne, hc.dorPath_iff hyd]⟩

structure AttemptExact (F : DorFabric n D) (d src : Fin n) (w : Way) (tried longer : Bool)
    (cl cl' : DorClosure n) : Prop where
  sound : F.Sound cl'
  entries : ∀ x e, x ≠ src ∨ e ≠ d → SameEntry cl cl' x e ∨ F.Exact cl' x e
  keeps : ∀ w', (F.Wanted w' src d → cl.bit w' src d = true) → F.Wanted w' src d →
    cl'.bit w' src d = true
  does : tried = true → F.Wanted w src d → cl'.bit w src d = true
  otherwise : tried = true → longer = true → F.Wanted w.other src d → cl'.bit w.other src d = true

theorem Settles.attempt_set (h : F.Settles cl clA) (hw : F.Wanted w src d) :
    F.Sound (clA.set src d w) ∧
      (∀ x e, x ≠ src ∨ e ≠ d → SameEntry cl (clA.set src d w) x e ∨
        F.Exact (clA.set src d w) x e) ∧
      ∀ w', (F.Wanted w' src d → cl.bit w' src d = true) → F.Wanted w' src d →
        (clA.set src d w).bit w' src d = true := by
  refine ⟨h.sound.set hw, fun x e hne => ?_, fun w' hbit hw' => bit_set_of_bit (h.bit hbit hw') _ _ _⟩
  have hsame : SameEntry clA (clA.set src d w) x e := sameEntry_set hne
  apply (h.entries x e).imp _ hsame.exact
  exact fun hold => ⟨fun w' => (hsame.bit w').trans (hold.bit w'), hsame.broken.trans hold.broken⟩

theorem Settles.trans (h : F.Settles cl clA) (h' : F.Settles clA cl') : F.Settles cl cl' := by
  refine ⟨h'.sound, fun x e => ?_⟩
  rcases h'.entries x e with hsame | hexact
  · apply (h.entries x e).imp _ hsame.exact
    exact fun hold => ⟨fun w' => (hsame.bit w').trans (hold.bit w'), hsame.broken.trans hold.broken⟩
  · exact .inr hexact

theorem tryWay_exact (hwalk : F.WalksExactly d walk) (hsound : F.Sound cl)
    (hi : F.firstDifference src d = some i)
    (hcommit : ∀ y, F.neighbor w src i = some y → F.coords y i ≠ F.coords d i →
      F.Committable d y w.direction)
    (hwant : F.WayTo w d src → F.Wanted w src d)
    (hlonger : longer = true → ¬F.ShorterWay w.other src d)
    (h : F.tryWay walk i src d longer w cl = some cl') :
    F.AttemptExact d src w true longer cl cl' := by
  have hne := (firstDifference_eq_some_iff.mp hi).1
  rcases tryWay_eq_some h with ⟨clA, hvisit, rfl⟩ | ⟨hlong, clA, y, clB, ok, hvisit, hy, hw, rfl⟩ |
      ⟨hvisit, hnone⟩
  · obtain ⟨hset, hok⟩ := visit_exact hwalk hsound hi hcommit hvisit
    have hway := hok.mp rfl
    obtain ⟨hsound', hentries, hkeeps⟩ := hset.attempt_set (hwant hway)
    refine ⟨hsound', hentries, hkeeps, fun _ _ => bit_set_self _ _ _ _, fun _ hlong hother => ?_⟩
    have hno := hother.2.resolve_left (hlonger hlong)
    rw [Way.other_other] at hno
    exact absurd hway hno
  · obtain ⟨hset, hok⟩ := visit_exact hwalk hsound hi hcommit hvisit
    have hno : ¬F.WayTo w d src := fun hway => Bool.false_ne_true (hok.mpr hway)
    have hgo := hlonger hlong
    rw [shorterWay_iff hi, Bool.not_eq_true] at hgo
    have hyne := coords_ne_of_not_goes hgo hy hne
    have hcommity : F.Committable d y w.other.direction := by
      intro w' hw'
      cases Way.direction_injective hw'
      refine .inl fun hback => ?_
      have hback := wayTo_other_of_neighbor hi hy hyne hback
      rw [Way.other_other] at hback
      exact hno hback
    obtain ⟨hset', hok'⟩ := hwalk _ _ _ _ _ hw hset.sound hcommity
    have hyd : y ≠ d := by
      rintro rfl
      exact hyne rfl
    have hway : ok = true ↔ F.WayTo w.other d src := by
      rw [hok', hcommity.dorPath_iff hyd, wayTo_iff hi]
      simp [hy, hyne]
    have htotal := hset.trans hset'
    cases ok with
    | true =>
      have hwanted : F.Wanted w.other src d := by
        refine ⟨hway.mp rfl, .inr ?_⟩
        rw [Way.other_other]
        exact hno
      obtain ⟨hsound', hentries, hkeeps⟩ := htotal.attempt_set hwanted
      exact ⟨hsound', hentries, hkeeps, fun _ hwant => absurd hwant.1 hno,
        fun _ _ _ => bit_set_self _ _ _ _⟩
    | false =>
      refine ⟨htotal.sound, fun x e _ => htotal.entries x e, fun w' => htotal.bit,
        fun _ hwant => absurd hwant.1 hno, fun _ _ hother => ?_⟩
      exact absurd (hway.mpr hother.1) Bool.false_ne_true
  · obtain ⟨hset, hok⟩ := visit_exact hwalk hsound hi hcommit hvisit
    refine ⟨hset.sound, fun x e _ => hset.entries x e, fun w' => hset.bit,
      fun _ hwant => absurd (hok.mpr hwant.1) Bool.false_ne_true, fun _ hlong hother => ?_⟩
    obtain ⟨y, hy, -⟩ := (wayTo_iff hi).mp hother.1
    rw [hnone hlong] at hy
    cases hy

theorem attempt_exact (hwalk : F.WalksExactly d walk) (hC : F.LongArcsClose) (hsound : F.Sound cl)
    (hi : F.firstDifference src d = some i) (hcommit : F.Committable d src dir)
    (h : F.attempt walk i src d dir w cl = some cl') :
    F.AttemptExact d src w (F.goes i dir (F.coords src i) (F.coords d i) w)
      (decide (dir = .any) && !F.goes i dir (F.coords src i) (F.coords d i) w.other) cl cl' := by
  unfold DorTopology.attempt at h
  simp only at h
  split at h
  next hgo =>
    rw [hgo]
    apply tryWay_exact hwalk hsound hi ?_ ?_ ?_ h
    · intro y hy hne
      rcases any_or_direction_of_goes hgo with rfl | rfl
      · exact hC.committable hi hy hne ((shorterWay_iff hi).mpr hgo)
      · exact hcommit.neighbor hi hy hne
    · intro hway
      refine ⟨hway, ?_⟩
      rcases any_or_direction_of_goes hgo with rfl | rfl
      · exact .inl ((shorterWay_iff hi).mpr hgo)
      · rcases hcommit w rfl with hno | ⟨-, hnot⟩
        · exact .inr hno
        · exact .inl ((shorterWay_or_other hi w).resolve_right hnot)
    · intro hlong
      obtain ⟨hany, hnot⟩ := (Bool.and_eq_true _ _).mp hlong
      have hany : dir = .any := of_decide_eq_true hany
      subst hany
      rw [shorterWay_iff hi]
      simpa using hnot
  next hgo =>
    rw [Bool.not_eq_true] at hgo
    cases h
    rw [hgo]
    exact ⟨hsound, fun x e _ => .inl (.refl cl x e), fun _ hbit => hbit, fun h => (nomatch h),
      fun h => (nomatch h)⟩

/-! ## Whole walks -/

theorem bit_of_attempts (hi : F.firstDifference src d = some i) (hcommit : F.Committable d src dir)
    (hA : F.AttemptExact d src .right (F.goes i dir (F.coords src i) (F.coords d i) .right)
      (decide (dir = .any) && !F.goes i dir (F.coords src i) (F.coords d i) .left) cl clA)
    (hB : F.AttemptExact d src .left (F.goes i dir (F.coords src i) (F.coords d i) .left)
      (decide (dir = .any) && !F.goes i dir (F.coords src i) (F.coords d i) .right) clA clB)
    (hw : F.Wanted w src d) : clB.bit w src d = true := by
  have hunwanted : ∀ w' : Way, dir = w'.direction → ¬F.Wanted w'.other src d := by
    rintro w' hw' ⟨hway, hshort⟩
    rw [Way.other_other] at hshort
    rcases hcommit w' hw' with hno | ⟨hyes, hnot⟩
    · exact hno hway
    · exact hshort.elim hnot (absurd hyes)
  cases w with
  | right =>
    cases hgo : F.goes i dir (F.coords src i) (F.coords d i) .right with
    | true => exact hB.keeps .right (hA.does hgo) hw
    | false =>
      cases dir with
      | any =>
        have hleft := (goes_or_other (w := .right) (firstDifference_eq_some_iff.mp hi).1).resolve_left
          (by simp [hgo])
        exact hB.otherwise hleft (by simp [hgo]) hw
      | left => exact absurd hw (hunwanted .left rfl)
      | right => cases hgo
  | left =>
    cases hgo : F.goes i dir (F.coords src i) (F.coords d i) .left with
    | true => exact hB.does hgo hw
    | false =>
      cases dir with
      | any =>
        have hright := (goes_or_other (w := .left) (firstDifference_eq_some_iff.mp hi).1).resolve_left
          (by simp [hgo])
        exact hB.keeps .left (hA.otherwise hright (by simp [hgo])) hw
      | left => cases hgo
      | right => exact absurd hw (hunwanted .right rfl)

theorem exact_of_bits (hi : F.firstDifference src d = some i) (hsound : F.Sound clB)
    (hbits : ∀ w, F.Wanted w src d → clB.bit w src d = true) :
    F.Sound (if clB.routed src d then clB else clB.setBroken src d) ∧
      F.Exact (if clB.routed src d then clB else clB.setBroken src d) src d ∧
      (clB.routed src d = true ↔ F.DorPath d src) := by
  have hrouted : clB.routed src d = true ↔ F.DorPath d src := by
    constructor
    · intro hr
      rcases (routed_iff .left).mp hr with hbit | hbit
      · exact (hsound.bit _ _ _ hbit).dorPath
      · exact (hsound.bit _ _ _ hbit).dorPath
    · intro hpath
      obtain ⟨w, hw⟩ := exists_wanted hi hpath
      exact routed_of_bit (hbits w hw)
  have hbit : ∀ w, clB.bit w src d = true ↔ F.Wanted w src d :=
    fun w => ⟨hsound.bit w src d, hbits w⟩
  split
  next hr =>
    refine ⟨hsound, ⟨hbit, ?_⟩, hrouted⟩
    exact iff_of_false (fun hbroken => hsound.broken _ _ hbroken (hrouted.mp hr))
      (fun hno => hno (hrouted.mp hr))
  next hr =>
    have hno : ¬F.DorPath d src := fun hpath => hr (hrouted.mpr hpath)
    refine ⟨⟨fun w x e hb => ?_, fun x e hb => ?_⟩, ⟨fun w => ?_, ?_⟩, hrouted⟩
    · rw [bit_setBroken] at hb
      exact hsound.bit w x e hb
    · rw [show (clB.setBroken src d).dorBroken x e = ijSet clB.dorBroken src d x e from rfl,
        ijSet_apply, Bool.or_eq_true, decide_eq_true_eq] at hb
      rcases hb with ⟨rfl, rfl⟩ | hb
      · exact hno
      · exact hsound.broken x e hb
    · rw [bit_setBroken]
      exact hbit w
    · refine iff_of_true ?_ hno
      rw [show (clB.setBroken src d).dorBroken src d = ijSet clB.dorBroken src d src d from rfl,
        ijSet_apply]
      simp

theorem sameEntry_setBroken (hne : x ≠ src ∨ e ≠ d) : SameEntry cl (cl.setBroken src d) x e := by
  refine ⟨fun w => by rw [bit_setBroken], ?_⟩
  rw [show (cl.setBroken src d).dorBroken x e = ijSet cl.dorBroken src d x e from rfl, ijSet_apply]
  rcases hne with hne | hne <;> simp [hne]

theorem isPathRealizable_exact (hC : F.LongArcsClose) (fuel : Nat) (d : Fin n) :
    ∀ cl x dir cl' ok, F.isPathRealizable fuel cl x d dir = some (cl', ok) → F.Sound cl →
      F.Committable d x dir →
      F.Settles cl cl' ∧ (ok = true ↔ F.DorPath d x) ∧ (EmptyEntry cl x d → F.Exact cl' x d) := by
  induction fuel with
  | zero => intro cl x dir cl' ok h; cases h
  | succ fuel ih =>
    intro cl x dir cl' ok h hsound hcommit
    have hwalk : F.WalksExactly d (F.walkTo fuel d) := by
      intro cl x dir cl' ok h hsound hcommit
      obtain ⟨hset, hok, -⟩ := ih cl x dir cl' ok h hsound hcommit
      exact ⟨hset, hok⟩
    rcases isPathRealizable_eq_some h with ⟨rfl, rfl, rfl⟩ | ⟨-, hrouted, rfl, rfl⟩ |
        ⟨-, -, hbroken, rfl, rfl⟩ | ⟨i, clA, clB, hi, -, -, hA, hB, rfl, rfl⟩
    · exact ⟨.refl hsound, iff_of_true rfl .here, fun _ => hsound.exact_self x⟩
    · refine ⟨.refl hsound, iff_of_true rfl ?_, fun hempty => ?_⟩
      · rcases (routed_iff .left).mp hrouted with hbit | hbit
        · exact (hsound.bit _ _ _ hbit).dorPath
        · exact (hsound.bit _ _ _ hbit).dorPath
      · rw [routed_iff .left, hempty.bit, hempty.bit] at hrouted
        simp at hrouted
    · refine ⟨.refl hsound, iff_of_false (by simp) (hsound.broken _ _ hbroken), fun hempty => ?_⟩
      rw [hempty.broken] at hbroken
      cases hbroken
    · have hrA := attempt_exact hwalk hC hsound hi hcommit hA
      have hrB := attempt_exact hwalk hC hrA.sound hi hcommit hB
      have hbits : ∀ w, F.Wanted w x d → clB.bit w x d = true :=
        fun w hw => bit_of_attempts hi hcommit hrA hrB hw
      obtain ⟨hsound', hexact, hrouted⟩ := exact_of_bits hi hrB.sound hbits
      refine ⟨⟨hsound', fun z e => ?_⟩, hrouted, fun _ => hexact⟩
      by_cases hself : z = x ∧ e = d
      · obtain ⟨rfl, rfl⟩ := hself
        exact .inr hexact
      · have hne : z ≠ x ∨ e ≠ d := not_and_or.mp hself
        have hlast : SameEntry clB (if clB.routed x d then clB else clB.setBroken x d) z e := by
          split
          · exact .refl clB z e
          · exact sameEntry_setBroken hne
        rcases hrB.entries z e hne with hsame | hexact
        · rcases hrA.entries z e hne with hsameA | hexactA
          · refine .inl ⟨fun w => ?_, ?_⟩
            · rw [hlast.bit, hsame.bit, hsameA.bit]
            · rw [hlast.broken, hsame.broken, hsameA.broken]
          · exact .inr (hlast.exact (hsame.exact hexactA))
        · exact .inr (hlast.exact hexact)

structure DoneExact (F : DorFabric n D) (done : List (Fin n × Fin n)) (cl : DorClosure n) : Prop where
  sound : F.Sound cl
  entries : ∀ x e, EmptyEntry cl x e ∨ F.Exact cl x e
  exact : ∀ p ∈ done, F.Exact cl p.1 p.2

theorem doneExact_empty (F : DorFabric n D) : F.DoneExact [] (DorClosure.empty n) := by
  have hbit : ∀ w x e, (DorClosure.empty n).bit w x e = false := by
    intro w x e
    cases w <;> rfl
  refine ⟨⟨fun w x e hb => ?_, fun x e hb => (nomatch hb)⟩, fun x e => .inl ⟨fun w => hbit w x e, rfl⟩,
    fun p hp => (nomatch hp)⟩
  rw [hbit] at hb
  cases hb

theorem DoneExact.step {done : List (Fin n × Fin n)} (hC : F.LongArcsClose)
    (h : F.DoneExact done cl) (hne : x ≠ d) :
    ∃ r, F.isPathRealizable F.walkFuel cl x d .any = some r ∧ F.DoneExact (done ++ [(x, d)]) r.1 := by
  obtain ⟨i, hi⟩ := F.exists_firstDifference hne
  have hfuel : F.walkBound x d .any < F.walkFuel := by
    simp only [walkBound, hi]
    exact F.later_add_lt_walkFuel i
  obtain ⟨⟨cl', ok⟩, hcl'⟩ : ∃ r, F.isPathRealizable F.walkFuel cl x d .any = some r :=
    isPathRealizable_isSome hfuel
  obtain ⟨hset, -, hnew⟩ :=
    isPathRealizable_exact hC F.walkFuel d cl x .any cl' ok hcl' h.sound (F.committable_any d x)
  refine ⟨(cl', ok), hcl', hset.sound, fun z e => ?_, fun p hp => ?_⟩
  · rcases hset.entries z e with hsame | hexact
    · apply (h.entries z e).imp _ hsame.exact
      intro hempty
      exact ⟨fun w => (hsame.bit w).trans (hempty.bit w), hsame.broken.trans hempty.broken⟩
    · exact .inr hexact
  · rcases List.mem_append.mp hp with hp | hp
    · exact hset.exact (h.exact p hp)
    · cases List.mem_singleton.mp hp
      exact (h.entries x d).elim hnew hset.exact

theorem calcDorClosure_exact (hC : F.LongArcsClose) (switches : List (Fin n)) :
    ∃ cl, F.calcDorClosure switches = some cl ∧
      ∀ x e, x ∈ switches → e ∈ switches → F.Exact cl x e := by
  have hloop : ∃ cl, F.calcDorClosure switches = some cl ∧
      F.DoneExact (switches.flatMap fun ni => switches.map fun nj => (ni, nj)) cl := by
    apply foldlM_invariant (P := fun _ _ => True) (J := F.DoneExact)
      (FoldMeets.of_forall (fun _ _ => trivial) _ _) F.doneExact_empty
    intro done p _ cl hdone _
    split
    next heq =>
      refine ⟨cl, rfl, hdone.sound, hdone.entries, fun q hq => ?_⟩
      rcases List.mem_append.mp hq with hq | hq
      · exact hdone.exact q hq
      · cases List.mem_singleton.mp hq
        rw [heq]
        exact hdone.sound.exact_self p.2
    next hne =>
      obtain ⟨r, hr, hdone'⟩ := hdone.step hC hne
      exact ⟨r.1, by rw [hr]; rfl, hdone'⟩
  obtain ⟨cl, hcl, hdone⟩ := hloop
  refine ⟨cl, hcl, fun x e hx he => hdone.exact (x, e) ?_⟩
  exact List.mem_flatMap.mpr ⟨x, hx, List.mem_map.mpr ⟨e, he, rfl⟩⟩

theorem eq_of_exact (h : ∀ x e, F.Exact cl x e) (h' : ∀ x e, F.Exact cl' x e) : cl = cl' := by
  have hbit : ∀ w x e, cl.bit w x e = cl'.bit w x e := by
    intro w x e
    rw [Bool.eq_iff_iff, (h x e).bit, (h' x e).bit]
  have hbroken : cl.dorBroken = cl'.dorBroken := by
    ext x e
    rw [Bool.eq_iff_iff, (h x e).broken, (h' x e).broken]
  have hleft : cl.dorLeft = cl'.dorLeft := by
    ext x e
    exact hbit .left x e
  have hright : cl.dorRight = cl'.dorRight := by
    ext x e
    exact hbit .right x e
  cases cl
  cases cl'
  simp_all

end DorFabric

end OpaFm.Dor
