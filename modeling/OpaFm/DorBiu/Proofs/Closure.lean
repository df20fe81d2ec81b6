import OpaFm.Dor.Proofs.SwitchOrder
import OpaFm.DorBiu.Closure
import OpaFm.Lib.Fold

/-!
# Hop counts in dimension order

The number of hops of a route in a complete mesh or torus, and what one hop by a shorter way
takes off it.
-/

namespace OpaFm.DorBiu

open OpaFm.Dor OpaFm.Dor.DorFabric

/-! ## Along one dimension -/

section Arc

variable {n D : Nat} {F : DorFabric n D} {x y d : Fin n} {i k : Fin D} {w : Way}

def arc (F : DorFabric n D) (x d : Fin n) (i : Fin D) : Nat :=
  if F.toroidal i then min (F.dist .left x d i) (F.dist .right x d i)
  else (F.coords x i - F.coords d i).natAbs

def hops (F : DorFabric n D) (x d : Fin n) : Nat := ∑ i, arc F x d i

theorem arc_eq_zero (h : F.coords x i = F.coords d i) : arc F x d i = 0 := by
  unfold arc
  split
  next => rw [dist_eq_zero_iff.mpr h, Nat.zero_min]
  next => rw [h, sub_self, Int.natAbs_zero]

theorem hops_self (F : DorFabric n D) (x : Fin n) : hops F x x = 0 :=
  Finset.sum_eq_zero fun _ _ => arc_eq_zero rfl

theorem arc_of_toroidal (htor : F.toroidal i = true)
    (hle : F.dist w x d i ≤ F.dist w.other x d i) : arc F x d i = F.dist w x d i := by
  unfold arc
  rw [if_pos htor]
  cases w with
  | left => exact Nat.min_eq_left hle
  | right => exact Nat.min_eq_right hle

theorem shorterWay_neighbor (hi : F.firstDifference x d = some i) (hy : F.neighbor w x i = some y)
    (hne : F.coords y i ≠ F.coords d i) (h : F.ShorterWay w x d) : F.ShorterWay w y d :=
  (shorterWay_or_other (firstDifference_neighbor hi hy hne) w).resolve_right
    (not_shorterWay_neighbor hi hy hne h)

theorem arc_neighbor (hi : F.firstDifference x d = some i) (hy : F.neighbor w x i = some y)
    (hshort : F.ShorterWay w x d) : arc F y d i + 1 = arc F x d i := by
  have hne := (firstDifference_eq_some_iff.mp hi).1
  have hgo := (shorterWay_iff hi).mp hshort
  have hstep := dist_neighbor hy hne
  cases htor : F.toroidal i with
  | true =>
    rw [goes_any_iff_of_toroidal htor hne] at hgo
    rw [arc_of_toroidal htor hgo, ← hstep]
    by_cases heq : F.coords y i = F.coords d i
    · rw [arc_eq_zero heq, dist_eq_zero_iff.mpr heq]
    · have hgoy := (shorterWay_iff (firstDifference_neighbor hi hy heq)).mp
        (shorterWay_neighbor hi hy heq hshort)
      rw [goes_any_iff_of_toroidal htor heq] at hgoy
      rw [arc_of_toroidal htor hgoy]
  | false =>
    rw [goes_any_iff_of_mesh htor hne] at hgo
    have hnext := neighbor_coords_of_mesh htor hy
    unfold arc
    rw [htor, if_neg Bool.false_ne_true, if_neg Bool.false_ne_true]
    cases w <;> simp only at hgo hnext <;> omega

theorem hops_neighbor (hi : F.firstDifference x d = some i) (hy : F.neighbor w x i = some y)
    (hshort : F.ShorterWay w x d) : hops F y d + 1 = hops F x d := by
  have hrest : ∑ k ∈ Finset.univ.erase i, arc F y d k = ∑ k ∈ Finset.univ.erase i, arc F x d k := by
    apply Finset.sum_congr rfl
    intro k hk
    unfold arc DorFabric.dist DorFabric.pos
    rw [neighbor_coords hy (Finset.ne_of_mem_erase hk)]
  unfold hops
  rw [← Finset.add_sum_erase _ _ (Finset.mem_univ i),
    ← Finset.add_sum_erase _ _ (Finset.mem_univ i), hrest, ← arc_neighbor hi hy hshort]
  omega

def OnWay (F : DorFabric n D) (d x y : Fin n) : Prop :=
  ∃ i w, F.firstDifference x d = some i ∧ F.neighbor w x i = some y ∧ F.ShorterWay w x d

theorem OnWay.hops_add_one (h : OnWay F d x y) : hops F y d + 1 = hops F x d := by
  obtain ⟨i, w, hi, hy, hshort⟩ := h
  exact hops_neighbor hi hy hshort

theorem arc_lt (F : DorFabric n D) (x d : Fin n) (i : Fin D) :
    arc F x d i < F.dimensionLength i := by
  have hleft := F.dist_lt .left x d i
  have hx := F.coords_mem x i
  have hd := F.coords_mem d i
  have hmax := F.coordMaximum_eq i
  unfold arc
  split <;> omega

theorem hops_lt_walkFuel (F : DorFabric n D) (x d : Fin n) : hops F x d < F.walkFuel := by
  have hle : hops F x d ≤ ∑ i, F.dimensionLength i :=
    Finset.sum_le_sum fun i _ => (arc_lt F x d i).le
  unfold DorTopology.walkFuel
  rw [← Fin.sum_univ_def]
  omega

theorem hops_pos (hne : x ≠ d) : 0 < hops F x d := by
  obtain ⟨i, hi⟩ := F.exists_firstDifference hne
  have hnei := (firstDifference_eq_some_iff.mp hi).1
  have hpos : 0 < arc F x d i := by
    have hleft : F.dist .left x d i ≠ 0 := fun h0 => hnei (dist_eq_zero_iff.mp h0)
    have hright : F.dist .right x d i ≠ 0 := fun h0 => hnei (dist_eq_zero_iff.mp h0)
    unfold arc
    split <;> omega
  calc 0 < arc F x d i := hpos
    _ ≤ hops F x d :=
      Finset.single_le_sum (fun k _ => Nat.zero_le (arc F x d k)) (Finset.mem_univ i)

end Arc

/-! ## Where no link is missing -/

/-- In the first dimension in which the switches differ there is a neighbour by each way that is
not longer than the other one. -/
def AttachedAt {n D : Nat} (F : DorFabric n D) (x d : Fin n) : Prop :=
  ∀ i w, F.firstDifference x d = some i →
    F.goes i .any (F.coords x i) (F.coords d i) w = true → (F.neighbor w x i).isSome = true

def Attached {n D : Nat} (F : DorFabric n D) : Prop := ∀ x d, AttachedAt F x d

namespace DorBiuFabric

variable {n D : Nat} {F : DorBiuFabric n D} {x d : Fin n} {i : Fin D} {w : Way}

theorem one_lt_of_ne (hne : F.coords x i ≠ F.coords d i) : 1 < F.dimensionLength i := by
  have hx := F.coords_mem x i
  have hd := F.coords_mem d i
  have hmax := F.toDorFabric.coordMaximum_eq i
  omega

theorem exists_neighbor (hi : F.firstDifference x d = some i) (hshort : F.ShorterWay w x d) :
    ∃ y, F.neighbor w x i = some y := by
  have hne := (firstDifference_eq_some_iff.mp hi).1
  have hL := one_lt_of_ne hne
  have hd := F.coords_mem d i
  rw [← Option.isSome_iff_exists]
  have hgo := (shorterWay_iff hi).mp hshort
  cases w with
  | left =>
    apply F.left_isSome x i hL
    intro htor
    have hlt := (goes_any_iff_of_mesh htor hne).mp hgo
    simp only at hlt
    omega
  | right =>
    apply F.right_isSome x i hL
    intro htor
    have hlt := (goes_any_iff_of_mesh htor hne).mp hgo
    simp only at hlt
    omega

theorem attached (F : DorBiuFabric n D) : Attached F.toDorFabric := by
  intro x d i w hi hgo
  exact Option.isSome_iff_exists.mpr (exists_neighbor hi ((shorterWay_iff hi).mpr hgo))

end DorBiuFabric

/-!
## The maps hold the hop counts

A walk that meets no missing neighbour succeeds, and what it leaves in the maps are the
dimension-ordered hop counts of the ways that are not longer than the other one.
-/

section

open OpaFm.Lib OpaFm.Dor OpaFm.Dor.DorFabric

namespace DorBiuClosure

variable {n : Nat} {cl : DorBiuClosure n} {x e : Fin n} {v : Nat}

theorem ijBiuSet_apply (bits : Fin n → Fin n → Option Nat) (i j x y : Fin n) (v : Nat) :
    ijBiuSet bits i j v x y = if x = i ∧ y = j then some v else bits x y := by
  unfold ijBiuSet
  by_cases hx : x = i
  · subst hx
    by_cases hy : y = j <;> simp [hy]
  · simp [hx]

theorem steps_set (cl : DorBiuClosure n) (i j : Fin n) (v : Nat) (w w' : Way) (x y : Fin n) :
    (cl.set i j v w).steps w' x y = if w' = w ∧ x = i ∧ y = j then some v else cl.steps w' x y := by
  cases w <;> cases w' <;> simp [set, steps, ijBiuSet_apply]

@[simp] theorem dorBroken_set (cl : DorBiuClosure n) (i j : Fin n) (v : Nat) (w : Way) :
    (cl.set i j v w).dorBroken = cl.dorBroken := by
  cases w <;> rfl

theorem routed_iff : cl.routed x e = true ↔ ∃ w v, cl.steps w x e = some v := by
  unfold routed
  rw [Bool.or_eq_true, Option.isSome_iff_exists, Option.isSome_iff_exists]
  constructor
  · rintro (⟨v, hv⟩ | ⟨v, hv⟩)
    · exact ⟨.left, v, hv⟩
    · exact ⟨.right, v, hv⟩
  · rintro ⟨w, v, hv⟩
    cases w with
    | left => exact .inl ⟨v, hv⟩
    | right => exact .inr ⟨v, hv⟩

theorem steps_of_beenHere (h : cl.beenHere x e = some v) : ∃ w, cl.steps w x e = some v := by
  unfold beenHere at h
  split at h
  next l r hl hr =>
    split at h
    next =>
      cases h
      exact ⟨.left, hl⟩
    next =>
      cases h
      exact ⟨.right, hr⟩
  next l hl _ =>
    cases h
    exact ⟨.left, hl⟩
  next r _ hr =>
    cases h
    exact ⟨.right, hr⟩
  next => cases h

theorem steps_of_hopCount (h : cl.hopCount x e = some v) : ∃ w, cl.steps w x e = some v := by
  unfold hopCount at h
  split at h
  next r hr =>
    cases h
    exact ⟨.right, hr⟩
  next => exact ⟨.left, h⟩

theorem exists_hopCount (h : cl.routed x e = true) : ∃ v, cl.hopCount x e = some v := by
  obtain ⟨w, v, hv⟩ := routed_iff.mp h
  unfold hopCount
  cases hr : cl.dorRight x e with
  | some r => exact ⟨r, rfl⟩
  | none =>
    cases w with
    | left => exact ⟨v, hv⟩
    | right =>
      rw [show cl.dorRight x e = some v from hv] at hr
      cases hr

end DorBiuClosure

open DorBiuClosure

variable {n D : Nat} {F : DorFabric n D} {cl cl' clA : DorBiuClosure n} {src x y d e : Fin n}
  {i : Fin D} {dir : DorDirection} {w : Way} {v step fuel : Nat} {walk : BiuWalk n}
  {P Q : Fin n → Fin n → Prop}

structure Counts (F : DorFabric n D) (cl : DorBiuClosure n) : Prop where
  steps : ∀ w x e v, cl.steps w x e = some v → F.ShorterWay w x e ∧ v = hops F x e
  broken : ∀ x e, cl.dorBroken x e = none

theorem counts_empty (F : DorFabric n D) : Counts F (DorBiuClosure.empty n) := by
  constructor
  · intro w x e v h
    cases w <;> cases h
  · intro x e
    rfl

theorem Counts.set (h : Counts F cl) (hw : F.ShorterWay w x e) :
    Counts F (cl.set x e (hops F x e) w) := by
  constructor
  · intro w' x' e' v hv
    rw [steps_set] at hv
    split at hv
    next heq =>
      obtain ⟨rfl, rfl, rfl⟩ := heq
      cases hv
      exact ⟨hw, rfl⟩
    next => exact h.steps w' x' e' v hv
  · intro x' e'
    rw [dorBroken_set]
    exact h.broken x' e'

theorem Counts.hopCount (h : Counts F cl) (hv : cl.hopCount x e = some v) : v = hops F x e := by
  obtain ⟨w, hw⟩ := steps_of_hopCount hv
  exact (h.steps w x e v hw).2

structure Grows (P : Fin n → Fin n → Prop) (cl cl' : DorBiuClosure n) : Prop where
  keeps : ∀ x e, cl.routed x e = true → cl'.routed x e = true
  gets : ∀ x e, cl'.routed x e = true → cl.routed x e = true ∨ P x e

theorem Grows.refl (P : Fin n → Fin n → Prop) (cl : DorBiuClosure n) : Grows P cl cl :=
  ⟨fun _ _ => id, fun _ _ => .inl⟩

theorem Grows.trans (h : Grows P cl clA) (h' : Grows P clA cl') : Grows P cl cl' :=
  ⟨fun x e hr => h'.keeps x e (h.keeps x e hr),
    fun x e hr => (h'.gets x e hr).elim (h.gets x e) .inr⟩

theorem Grows.mono (h : Grows P cl cl') (hPQ : ∀ x e, P x e → Q x e) : Grows Q cl cl' :=
  ⟨h.keeps, fun x e hr => (h.gets x e hr).imp_right (hPQ x e)⟩

theorem Grows.dorBiuClosure (h : Grows P cl cl') (hx : cl.dorBiuClosure x e = true) :
    cl'.dorBiuClosure x e = true := by
  unfold DorBiuClosure.dorBiuClosure at *
  rw [Bool.or_eq_true] at *
  exact hx.imp id (h.keeps x e)

theorem grows_set (cl : DorBiuClosure n) (x e : Fin n) (v : Nat) (w : Way) :
    Grows (fun x' e' => x' = x ∧ e' = e) cl (cl.set x e v w) := by
  constructor
  · intro x' e' h
    rw [routed_iff] at h ⊢
    obtain ⟨w', v', hv'⟩ := h
    by_cases heq : w' = w ∧ x' = x ∧ e' = e
    · exact ⟨w', v, by rw [steps_set, if_pos heq]⟩
    · exact ⟨w', v', by rw [steps_set, if_neg heq, hv']⟩
  · intro x' e' h
    obtain ⟨w', v', hv'⟩ := routed_iff.mp h
    rw [steps_set] at hv'
    split at hv'
    next heq => exact .inr heq.2
    next => exact .inl (routed_iff.mpr ⟨w', v', hv'⟩)

theorem routed_set (cl : DorBiuClosure n) (x e : Fin n) (v : Nat) (w : Way) :
    (cl.set x e v w).routed x e = true := by
  rw [routed_iff]
  exact ⟨w, v, by rw [steps_set, if_pos ⟨rfl, rfl, rfl⟩]⟩

/-! ### One attempt -/

def BeginsShorter (F : DorFabric n D) (d x : Fin n) (dir : DorDirection) : Prop :=
  ∀ w : Way, dir = w.direction → x = d ∨ F.ShorterWay w x d

theorem BeginsShorter.of_goes (h : BeginsShorter F d src dir)
    (hi : F.firstDifference src d = some i)
    (hgo : F.goes i dir (F.coords src i) (F.coords d i) w = true) : F.ShorterWay w src d := by
  rcases any_or_direction_of_goes hgo with rfl | rfl
  · exact (shorterWay_iff hi).mpr hgo
  · exact (h w rfl).resolve_left (ne_of_firstDifference hi)

def MayWalk (F : DorFabric n D) (d x : Fin n) (dir : DorDirection) : Prop :=
  ∀ w : Way, dir = w.direction → x = d ∨ F.ShorterWay w x d ∧ ¬F.ShorterWay w.other x d

theorem MayWalk.beginsShorter (h : MayWalk F d x dir) : BeginsShorter F d x dir :=
  fun w hw => (h w hw).imp_right And.left

theorem mayWalk_any (F : DorFabric n D) (d x : Fin n) : MayWalk F d x .any := by
  intro w hw
  cases w <;> cases hw

theorem mayWalk_neighbor (hi : F.firstDifference src d = some i) (hy : F.neighbor w src i = some y)
    (hshort : F.ShorterWay w src d) :
    MayWalk F d y (if F.coords y i = F.coords d i then .any else w.direction) := by
  split
  next => exact mayWalk_any F d y
  next hne =>
    intro w' hw'
    cases Way.direction_injective hw'
    exact .inr ⟨shorterWay_neighbor hi hy hne hshort, not_shorterWay_neighbor hi hy hne hshort⟩

theorem goes_of_goes_any (hi : F.firstDifference src d = some i) (hmay : MayWalk F d src dir)
    (hgo : F.goes i .any (F.coords src i) (F.coords d i) w = true) :
    F.goes i dir (F.coords src i) (F.coords d i) w = true := by
  have hcommitted : ∀ w' : Way, dir = w'.direction → w = w' := by
    intro w' hw'
    obtain ⟨-, hother⟩ := (hmay w' hw').resolve_left (ne_of_firstDifference hi)
    by_contra hne
    have hw : w = w'.other := by cases w <;> cases w' <;> first | rfl | exact absurd rfl hne
    exact hother (hw ▸ (shorterWay_iff hi).mpr hgo)
  cases dir with
  | any => exact hgo
  | left => exact (F.goes_direction .left w i _ _).mpr (hcommitted .left rfl)
  | right => exact (F.goes_direction .right w i _ _).mpr (hcommitted .right rfl)

/-- The computation stops at a missing neighbour, or has the answer `v` and gives routes to pairs
with `P`. -/
def Answers (F : DorFabric n D) (P : Fin n → Fin n → Prop) (cl : DorBiuClosure n) (v : Nat)
    (result : Option (DorBiuClosure n × Nat)) : Prop :=
  result = none ∧ ¬Attached F ∨ ∃ cl', result = some (cl', v) ∧ Counts F cl' ∧ Grows P cl cl'

def WalksCount (F : DorFabric n D) (d : Fin n) (m : Nat) (walk : BiuWalk n) : Prop :=
  ∀ cl x dir, Counts F cl → MayWalk F d x dir → hops F x d = m →
    Answers F (AttachedAt F) cl (m + 1) (walk cl x dir)

def Settles (F : DorFabric n D) (src d : Fin n) (i : Fin D) (w : Way) (cl : DorBiuClosure n)
    (result : Option (DorBiuClosure n × Nat)) : Prop :=
  result = none ∧ ¬Attached F ∨ ∃ cl', result = some (cl', hops F src d) ∧ Counts F cl' ∧
    Grows (fun x e => AttachedAt F x e ∨ x = src ∧ e = d) cl cl' ∧ cl'.routed src d = true ∧
      (F.neighbor w src i).isSome = true

theorem tryWay_counts (hwalk : WalksCount F d (hops F src d - 1) walk)
    (hi : F.firstDifference src d = some i) (hshort : F.ShorterWay w src d) (longer : Bool)
    (h : Counts F cl) :
    Settles F src d i w cl (tryWay F.toDorTopology walk i src d longer w cl) := by
  unfold tryWay
  cases hy : F.neighbor w src i with
  | none =>
    refine .inl ⟨rfl, fun hattached => ?_⟩
    have hsome := hattached src d i w hi ((shorterWay_iff hi).mp hshort)
    rw [hy] at hsome
    cases hsome
  | some y =>
    have hhops := hops_neighbor hi hy hshort
    simp only
    obtain ⟨hnone, hnot⟩ | ⟨clA, hA, hcounts, hgrows⟩ :=
      hwalk cl y _ h (mayWalk_neighbor hi hy hshort) (by omega)
    · rw [hnone]
      exact .inl ⟨rfl, hnot⟩
    · have hstep : hops F src d - 1 + 1 = hops F src d := by omega
      rw [hstep] at hA
      simp only [hA, Option.bind_eq_bind, Option.bind_some]
      rw [if_pos (.inr (by omega))]
      refine .inr ⟨_, rfl, hcounts.set hshort, ?_, routed_set _ _ _ _ _, by rw [hy]; rfl⟩
      exact (hgrows.mono fun _ _ => .inl).trans ((grows_set _ _ _ _ _).mono fun _ _ => .inr)

theorem attempt_counts (hwalk : WalksCount F d (hops F src d - 1) walk)
    (hi : F.firstDifference src d = some i) (hmay : MayWalk F d src dir)
    (hgo : F.goes i dir (F.coords src i) (F.coords d i) w = true) (step : Nat) (h : Counts F cl) :
    Settles F src d i w cl (attempt F.toDorTopology walk i src d dir w cl step) := by
  have hshort := hmay.beginsShorter.of_goes hi hgo
  unfold attempt
  simp only
  rw [if_pos hgo]
  exact tryWay_counts hwalk hi hshort _ h

theorem attempt_skip (hgo : F.goes i dir (F.coords src i) (F.coords d i) w = false) (step : Nat)
    (cl : DorBiuClosure n) :
    attempt F.toDorTopology walk i src d dir w cl step = some (cl, step) := by
  unfold attempt
  simp only
  rw [hgo, if_neg Bool.false_ne_true]

theorem exists_goes (hi : F.firstDifference src d = some i) (dir : DorDirection) :
    F.goes i dir (F.coords src i) (F.coords d i) .right = true ∨
      F.goes i dir (F.coords src i) (F.coords d i) .left = true := by
  cases dir with
  | any => exact goes_or_other (firstDifference_eq_some_iff.mp hi).1
  | left => exact .inr ((F.goes_direction .left .left i _ _).mpr rfl)
  | right => exact .inl ((F.goes_direction .right .right i _ _).mpr rfl)

def attempts (F : DorFabric n D) (walk : BiuWalk n) (i : Fin D) (src d : Fin n)
    (dir : DorDirection) (cl : DorBiuClosure n) : Option (DorBiuClosure n × Nat) :=
  (attempt F.toDorTopology walk i src d dir .right cl 0).bind fun r =>
    attempt F.toDorTopology walk i src d dir .left r.1 r.2

theorem attempts_count (hwalk : WalksCount F d (hops F src d - 1) walk)
    (hi : F.firstDifference src d = some i) (hmay : MayWalk F d src dir) (h : Counts F cl) :
    attempts F walk i src d dir cl = none ∧ ¬Attached F ∨
      ∃ cl', attempts F walk i src d dir cl = some (cl', hops F src d) ∧ Counts F cl' ∧
        Grows (AttachedAt F) cl cl' ∧ cl'.routed src d = true := by
  -- what both attempts have found makes the pair one of those that are attached
  have hgets : ∀ {cl' : DorBiuClosure n},
      (∀ w, F.goes i dir (F.coords src i) (F.coords d i) w = true →
        (F.neighbor w src i).isSome = true) →
      Grows (fun x e => AttachedAt F x e ∨ x = src ∧ e = d) cl cl' →
        Grows (AttachedAt F) cl cl' := by
    intro cl' hall hgrows
    refine hgrows.mono fun x e hxe => hxe.elim id ?_
    rintro ⟨rfl, rfl⟩ k w hk hgo
    rw [hi] at hk
    cases hk
    exact hall w (goes_of_goes_any hi hmay hgo)
  unfold attempts
  cases hright : F.goes i dir (F.coords src i) (F.coords d i) .right with
  | false =>
    have hleft := (exists_goes hi dir).resolve_left (by simp [hright])
    rw [attempt_skip hright, Option.bind_some]
    obtain hstops | ⟨cl', hcl', hcounts, hgrows, hrouted, hsome⟩ :=
      attempt_counts hwalk hi hmay hleft 0 h
    · exact .inl hstops
    · refine .inr ⟨cl', hcl', hcounts, hgets ?_ hgrows, hrouted⟩
      intro w hgo
      cases w with
      | left => exact hsome
      | right => rw [hright] at hgo; cases hgo
  | true =>
    obtain ⟨hnone, hnot⟩ | ⟨clA, hA, hcounts, hgrows, hrouted, hsome⟩ :=
      attempt_counts hwalk hi hmay hright 0 h
    · rw [hnone]
      exact .inl ⟨rfl, hnot⟩
    rw [hA, Option.bind_some]
    cases hleft : F.goes i dir (F.coords src i) (F.coords d i) .left with
    | false =>
      refine .inr ⟨clA, attempt_skip hleft _ clA, hcounts, hgets ?_ hgrows, hrouted⟩
      intro w hgo
      cases w with
      | left => rw [hleft] at hgo; cases hgo
      | right => exact hsome
    | true =>
      obtain hstops | ⟨clB, hB, hcountsB, hgrowsB, hroutedB, hsomeB⟩ :=
        attempt_counts hwalk hi hmay hleft (hops F src d) hcounts
      · exact .inl hstops
      · refine .inr ⟨clB, hB, hcountsB, hgets ?_ (hgrows.trans hgrowsB), hroutedB⟩
        intro w _
        cases w with
        | left => exact hsomeB
        | right => exact hsome

/-! ### Whole walks -/

theorem isPathRealizable_counts (F : DorFabric n D) (d : Fin n) :
    ∀ fuel cl x dir, hops F x d < fuel → Counts F cl → MayWalk F d x dir →
      isPathRealizable F.toDorTopology fuel cl x d dir = none ∧ ¬Attached F ∨
        ∃ cl', isPathRealizable F.toDorTopology fuel cl x d dir = some (cl', hops F x d + 1) ∧
          Counts F cl' ∧ Grows (AttachedAt F) cl cl' ∧ cl'.dorBiuClosure x d = true := by
  intro fuel
  induction fuel with
  | zero => intro cl x dir hlt; exact absurd hlt (Nat.not_lt_zero _)
  | succ fuel ih =>
    intro cl x dir hlt hcounts hmay
    unfold dorBiuClosure
    rw [isPathRealizable]
    by_cases heq : x = d
    · subst heq
      rw [if_pos rfl, hops_self]
      exact .inr ⟨cl, rfl, hcounts, .refl _ cl, by simp⟩
    rw [if_neg heq]
    split
    next v hv =>
      -- the pair was settled by an earlier walk
      obtain ⟨w, hw⟩ := steps_of_beenHere hv
      rw [(hcounts.steps w x d v hw).2]
      refine .inr ⟨cl, rfl, hcounts, .refl _ cl, ?_⟩
      rw [routed_iff.mpr ⟨w, v, hw⟩, Bool.or_true]
    next hnone =>
      rw [hcounts.broken, Option.isSome_none, if_neg Bool.false_ne_true]
      obtain ⟨i, hi⟩ := F.exists_firstDifference heq
      have hpos := hops_pos (F := F) heq
      have hwalk : WalksCount F d (hops F x d - 1)
          (fun cl x dir => isPathRealizable F.toDorTopology fuel cl x d dir) := by
        intro cl z dir hc hm hz
        obtain hstops | ⟨cl', hcl', hc', hg, -⟩ := ih cl z dir (by omega) hc hm
        · exact .inl hstops
        · rw [hz] at hcl'
          exact .inr ⟨cl', hcl', hc', hg⟩
      simp only [hi, Option.bind_eq_bind, ← Option.bind_assoc]
      obtain ⟨hstop, hnot⟩ | ⟨cl', hcl', hcounts', hgrows, hrouted⟩ :=
        attempts_count hwalk hi hmay hcounts
      · unfold attempts at hstop
        rw [hstop]
        exact .inl ⟨rfl, hnot⟩
      · unfold attempts at hcl'
        rw [hcl', Option.bind_some, if_pos hrouted]
        exact .inr ⟨cl', rfl, hcounts', hgrows, by rw [hrouted, Bool.or_true]⟩

/-! ### The closure -/

structure DoneCounts (F : DorFabric n D) (done : List (Fin n × Fin n)) (cl : DorBiuClosure n) :
    Prop where
  counts : Counts F cl
  closure : ∀ p ∈ done, cl.dorBiuClosure p.1 p.2 = true
  attached : ∀ x e, cl.routed x e = true → AttachedAt F x e

theorem doneCounts_empty (F : DorFabric n D) : DoneCounts F [] (DorBiuClosure.empty n) :=
  ⟨counts_empty F, fun _ hp => (nomatch hp), fun _ _ hr => (nomatch hr)⟩

def pairTurn (F : DorFabric n D) (cl : DorBiuClosure n) (p : Fin n × Fin n) :
    Option (DorBiuClosure n) :=
  if p.1 = p.2 then some cl
  else (isPathRealizable F.toDorTopology F.walkFuel cl p.1 p.2 .any).map Prod.fst

theorem DoneCounts.next {done : List (Fin n × Fin n)} (h : DoneCounts F done cl)
    (p : Fin n × Fin n) :
    pairTurn F cl p = none ∧ ¬Attached F ∨
      ∃ cl', pairTurn F cl p = some cl' ∧ DoneCounts F (done ++ [p]) cl' := by
  have hdone : ∀ cl', Counts F cl' → Grows (AttachedAt F) cl cl' →
      cl'.dorBiuClosure p.1 p.2 = true → DoneCounts F (done ++ [p]) cl' := by
    intro cl' hcounts hgrows hp
    refine ⟨hcounts, fun q hq => ?_, fun x e hr => (hgrows.gets x e hr).elim (h.attached x e) id⟩
    rcases List.mem_append.mp hq with hq | hq
    · exact hgrows.dorBiuClosure (h.closure q hq)
    · rw [List.mem_singleton.mp hq]
      exact hp
  unfold pairTurn
  split
  next heq =>
    refine .inr ⟨cl, rfl, hdone cl h.counts (.refl _ cl) ?_⟩
    unfold DorBiuClosure.dorBiuClosure
    rw [heq, decide_eq_true rfl, Bool.true_or]
  next =>
    obtain ⟨hnone, hnot⟩ | ⟨cl', hcl', hcounts, hgrows, hp⟩ :=
      isPathRealizable_counts F p.2 F.walkFuel cl p.1 .any (hops_lt_walkFuel F p.1 p.2) h.counts
        (mayWalk_any F p.2 p.1)
    · exact .inl ⟨by rw [hnone]; rfl, hnot⟩
    · exact .inr ⟨cl', by rw [hcl']; rfl, hdone cl' hcounts hgrows hp⟩

theorem calcDorClosure_counts (F : DorFabric n D) {switches : List (Fin n)}
    (hall : ∀ x, x ∈ switches) :
    calcDorClosure F.toDorTopology switches = none ∧ ¬Attached F ∨
      ∃ cl, calcDorClosure F.toDorTopology switches = some cl ∧ Counts F cl ∧
        (∀ x e, cl.dorBiuClosure x e = true) ∧ Attached F := by
  obtain hstops | ⟨cl, hcl, hdone⟩ := foldlM_invariant_or (doneCounts_empty F)
    (fun done p cl hdone => DoneCounts.next hdone p)
    (l := switches.flatMap fun ni => switches.map fun nj => (ni, nj))
  · exact .inl hstops
  · have hclosure : ∀ x e, cl.dorBiuClosure x e = true := fun x e =>
      hdone.closure (x, e)
        (List.mem_flatMap.mpr ⟨x, hall x, List.mem_map.mpr ⟨e, hall e, rfl⟩⟩)
    refine .inr ⟨cl, hcl, hdone.counts, hclosure, fun x e i w hi => ?_⟩
    have hx := hclosure x e
    unfold DorBiuClosure.dorBiuClosure at hx
    rw [decide_eq_false (ne_of_firstDifference hi), Bool.false_or] at hx
    exact hdone.attached x e hx i w hi

theorem DorBiuFabric.calcDorClosure_counts (F : DorBiuFabric n D) :
    ∃ cl, calcDorClosure F.toDorTopology F.switches = some cl ∧ Counts F.toDorFabric cl ∧
      ∀ x e, cl.dorBiuClosure x e = true := by
  obtain ⟨-, hnot⟩ | ⟨cl, hcl, hcounts, hclosure, -⟩ :=
    DorBiu.calcDorClosure_counts F.toDorFabric F.mem_switches
  · exact absurd F.attached hnot
  · exact ⟨cl, hcl, hcounts, hclosure⟩

end

/-!
## Routes

The count that is stored for a way is compared with the routes that begin by it.
-/

section

variable {n D : Nat} {F : DorFabric n D} {cl : DorBiuClosure n} {x d : Fin n} {i : Fin D}
  {dir : DorDirection} {w : Way} {v k : Nat}

/-- A route in dimension order to `d` and its number of hops.  A route that goes one way does so
until it has the coordinate of `d`, and goes on from there by a way that is not longer. -/
inductive DimensionRoute (F : DorFabric n D) (d : Fin n) : Fin n → DorDirection → Nat → Prop
  | arrived (dir : DorDirection) : DimensionRoute F d d dir 0
  | hop {x y : Fin n} {i : Fin D} {w : Way} {dir : DorDirection} {k : Nat} :
      F.firstDifference x d = some i → F.goes i dir (F.coords x i) (F.coords d i) w = true →
      F.neighbor w x i = some y →
      DimensionRoute F d y (if F.coords y i = F.coords d i then .any else w.direction) k →
      DimensionRoute F d x dir (k + 1)

/-- What is stored for a way is the number of hops of the routes that begin by it. -/
def HopCountsExact (F : DorFabric n D) (cl : DorBiuClosure n) : Prop :=
  ∀ w x d v, cl.steps w x d = some v → ∀ k, DimensionRoute F d x w.direction k ↔ k = v

theorem DimensionRoute.eq_hops (h : DimensionRoute F d x dir k) :
    BeginsShorter F d x dir → k = hops F x d := by
  induction h with
  | arrived dir => exact fun _ => (hops_self F d).symm
  | hop hi hgo hy _ ih =>
    intro hbegins
    have hshort := hbegins.of_goes hi hgo
    rw [ih (mayWalk_neighbor hi hy hshort).beginsShorter]
    exact hops_neighbor hi hy hshort

theorem exists_route (hattached : Attached F) : ∀ k x dir, BeginsShorter F d x dir →
    hops F x d = k → DimensionRoute F d x dir k := by
  intro k
  induction k with
  | zero =>
    intro x dir _ hk
    by_cases heq : x = d
    · rw [heq]
      exact .arrived dir
    · exact absurd hk (hops_pos heq).ne'
  | succ k ih =>
    intro x dir hbegins hk
    have hne : x ≠ d := by
      rintro rfl
      rw [hops_self] at hk
      cases hk
    obtain ⟨i, hi⟩ := F.exists_firstDifference hne
    obtain ⟨w, hgo⟩ : ∃ w, F.goes i dir (F.coords x i) (F.coords d i) w = true :=
      (exists_goes hi dir).elim (fun h => ⟨.right, h⟩) fun h => ⟨.left, h⟩
    have hshort := hbegins.of_goes hi hgo
    obtain ⟨y, hy⟩ := Option.isSome_iff_exists.mp
      (hattached x d i w hi ((shorterWay_iff hi).mp hshort))
    have hhops := hops_neighbor hi hy hshort
    exact .hop hi hgo hy (ih y _ (mayWalk_neighbor hi hy hshort).beginsShorter (by omega))

theorem route_iff (hattached : Attached F) (hshort : F.ShorterWay w x d) :
    DimensionRoute F d x w.direction k ↔ k = hops F x d := by
  have hbegins : BeginsShorter F d x w.direction := by
    intro w' hw'
    cases Way.direction_injective hw'
    exact .inr hshort
  constructor
  · exact fun h => h.eq_hops hbegins
  · exact fun hk => exists_route hattached k x _ hbegins hk.symm

/-- The closure is computed, with the hop counts of the routes, just if no shorter way misses a
neighbour. -/
theorem calcDorClosure_exact_iff (F : DorFabric n D) {switches : List (Fin n)}
    (hall : ∀ x, x ∈ switches) :
    (∃ cl, calcDorClosure F.toDorTopology switches = some cl ∧ HopCountsExact F cl) ↔
      Attached F := by
  obtain ⟨hnone, hnot⟩ | ⟨cl, hcl, hcounts, -, hattached⟩ := calcDorClosure_counts F hall
  · refine iff_of_false ?_ hnot
    rintro ⟨cl, hcl, -⟩
    rw [hnone] at hcl
    cases hcl
  · refine iff_of_true ⟨cl, hcl, fun w x d v hv k => ?_⟩ hattached
    obtain ⟨hshort, rfl⟩ := hcounts.steps w x d v hv
    exact route_iff hattached hshort

theorem calcDorClosure_exact_iff_openRing :
    (∃ cl, calcDorClosure openRing.toDorTopology [0, 1, 2, 3] = some cl ∧
        HopCountsExact openRing cl) ↔ Attached openRing :=
  calcDorClosure_exact_iff openRing (by decide)

/-- Without the cable between two switches of a ring the pointer of one to the other is
followed. -/
theorem not_calcDorClosure_exact :
    ¬∃ cl, calcDorClosure openRing.toDorTopology [0, 1, 2, 3] = some cl ∧
      HopCountsExact openRing cl := by
  rintro ⟨cl, hcl, -⟩
  have hnone : (calcDorClosure openRing.toDorTopology [0, 1, 2, 3]).isNone = true := by
    decide +kernel
  rw [hcl] at hnone
  cases hnone

end

/-!
## The copy

The sizes of the copied maps are those of maps with a bit for each pair.
-/

variable {mem : ClosureMem} {src dst : ClosureMaps} {ij : Int} {x y : BitVec 32}

/-- The copy gives the same answers as the original for all pairs of switches, from inside of its
allocations. -/
structure CopiesClosure (src dst : ClosureMaps) : Prop where
  closure : ∀ i j, i < src.closureMaxSws → j < src.closureMaxSws → i ≠ j →
    dst.dorBiuClosure i j = src.dorBiuClosure i j
  left : ∀ i j, i < src.closureMaxSws → j < src.closureMaxSws → i ≠ j →
    ijBiuGet dst.dorLeft (dorBitMapsIndex dst.closureMaxSws i j) =
      ijBiuGet src.dorLeft (dorBitMapsIndex src.closureMaxSws i j)
  right : ∀ i j, i < src.closureMaxSws → j < src.closureMaxSws → i ≠ j →
    ijBiuGet dst.dorRight (dorBitMapsIndex dst.closureMaxSws i j) =
      ijBiuGet src.dorRight (dorBitMapsIndex src.closureMaxSws i j)
  inside : ∀ i j, i < src.closureMaxSws → j < src.closureMaxSws → i ≠ j →
    ∀ bytes ∈ [dst.dorLeft, dst.dorRight],
      (ijBiuGet bytes (dorBitMapsIndex dst.closureMaxSws i j)).isSome = true

theorem copySize_toNat (maxSws : BitVec 32) :
    (copySize maxSws).toNat = 4 * maxSws.toNat * maxSws.toNat % 2 ^ 64 / 32 + 1 := by
  have hfour : (4 : BitVec 64).toNat = 4 := rfl
  have hone : (1 : BitVec 64).toNat = 1 := rfl
  have hbits : (32 : BitVec 64).toNat = 32 := rfl
  unfold copySize
  rw [BitVec.toNat_add, BitVec.toNat_udiv, BitVec.toNat_mul, BitVec.toNat_mul, hfour, hone, hbits,
    BitVec.toNat_setWidth_of_le (by decide), Nat.mod_mul_mod]
  omega

theorem dorBitMapsIndex_toNat (maxSws x y : BitVec 32) :
    (x * maxSws + y).toNat = (x.toNat * maxSws.toNat + y.toNat) % 2 ^ 32 := by
  rw [BitVec.toNat_add, BitVec.toNat_mul, Nat.mod_add_mod]

theorem dorBitMapsIndex_neg {maxSws : BitVec 32} (hge : 2 ^ 31 ≤ x.toNat * maxSws.toNat + y.toNat)
    (hlt : x.toNat * maxSws.toNat + y.toNat < 2 ^ 32) : dorBitMapsIndex maxSws x y < 0 := by
  unfold dorBitMapsIndex
  rw [BitVec.toInt_eq_toNat_cond, dorBitMapsIndex_toNat, Nat.mod_eq_of_lt hlt]
  split <;> omega

theorem dorBitMapsIndex_of_lt {maxSws : BitVec 32}
    (hlt : x.toNat * maxSws.toNat + y.toNat < 2 ^ 31) :
    dorBitMapsIndex maxSws x y = (x.toNat * maxSws.toNat + y.toNat : Nat) := by
  unfold dorBitMapsIndex
  rw [BitVec.toInt_eq_toNat_cond, dorBitMapsIndex_toNat, Nat.mod_eq_of_lt (by omega)]
  split <;> omega

def Outside (maxSws x y : BitVec 32) : Prop :=
  dorBitMapsIndex maxSws x y < 0 ∨
    ((copySize maxSws).toNat : Int) < 4 * dorBitMapsIndex maxSws x y + 4

theorem Outside.ijBiuGet {maxSws : BitVec 32} (h : Outside maxSws x y)
    {bytes : Option (List (BitVec 8))} :
    ijBiuGet (bytes.map (List.take (copySize maxSws).toNat)) (dorBitMapsIndex maxSws x y) =
      none := by
  cases bytes with
  | none => rfl
  | some bytes =>
    show wordAt (bytes.take (copySize maxSws).toNat) _ = none
    unfold wordAt
    rw [List.length_take]
    refine if_neg fun hin => ?_
    rcases h with h | h <;> omega

theorem exists_outside_of {maxSws : BitVec 32} {a b : Nat} (ha : a < maxSws.toNat)
    (hb : b < maxSws.toNat) (hne : a ≠ b)
    (hout : 2 ^ 31 ≤ a * maxSws.toNat + b ∧ a * maxSws.toNat + b < 2 ^ 32 ∨
      a * maxSws.toNat + b < 2 ^ 31 ∧
        (copySize maxSws).toNat < 4 * (a * maxSws.toNat + b) + 4) :
    ∃ x y, x < maxSws ∧ y < maxSws ∧ x ≠ y ∧ Outside maxSws x y := by
  have hlt := maxSws.isLt
  have hx : (BitVec.ofNat 32 a).toNat = a := by
    rw [BitVec.toNat_ofNat, Nat.mod_eq_of_lt (by omega)]
  have hy : (BitVec.ofNat 32 b).toNat = b := by
    rw [BitVec.toNat_ofNat, Nat.mod_eq_of_lt (by omega)]
  refine ⟨BitVec.ofNat 32 a, BitVec.ofNat 32 b, ?_, ?_, ?_, ?_⟩
  · rwa [BitVec.lt_def, hx]
  · rwa [BitVec.lt_def, hy]
  · intro heq
    rw [← hx, ← hy, heq] at hne
    exact hne rfl
  · rcases hout with ⟨hge, hlt32⟩ | ⟨hlt31, hsize⟩
    · exact .inl (dorBitMapsIndex_neg (by rwa [hx, hy]) (by rwa [hx, hy]))
    · refine .inr ?_
      rw [dorBitMapsIndex_of_lt (by rwa [hx, hy]), hx, hy]
      omega

/-- Of two switches or more there are two whose entry is outside: the last ones, or where the
index of an entry passes the width of an `int` some for which it does. -/
theorem exists_outside (maxSws : BitVec 32) (h : 2 ≤ maxSws.toNat) :
    ∃ x y, x < maxSws ∧ y < maxSws ∧ x ≠ y ∧ Outside maxSws x y := by
  by_cases hsmall : maxSws.toNat ≤ 46341
  · apply exists_outside_of (a := maxSws.toNat - 1) (b := maxSws.toNat - 2)
    · omega
    · omega
    · omega
    · have hindex : (maxSws.toNat - 1) * maxSws.toNat + (maxSws.toNat - 2) + 2 =
          maxSws.toNat * maxSws.toNat := by
        rw [Nat.sub_one_mul]
        have hle := Nat.le_mul_self maxSws.toNat
        omega
      have hsquare : maxSws.toNat * maxSws.toNat ≤ 46341 * 46341 :=
        Nat.mul_le_mul hsmall hsmall
      have hfour : 2 * 2 ≤ maxSws.toNat * maxSws.toNat := Nat.mul_le_mul h h
      rw [copySize_toNat, Nat.mul_assoc]
      omega
  · have hpos : 0 < maxSws.toNat := by omega
    have hlt := maxSws.isLt
    have hdiv := Nat.div_add_mod' (2 ^ 31) maxSws.toNat
    have hmod := Nat.mod_lt (2 ^ 31) hpos
    have hquot : 2 ^ 31 / maxSws.toNat ≤ 46340 :=
      (Nat.div_le_div_left (by omega) (by decide)).trans (by decide : 2 ^ 31 / 46342 ≤ 46340)
    by_cases hne : 2 ^ 31 / maxSws.toNat = 2 ^ 31 % maxSws.toNat
    · apply exists_outside_of (a := 2 ^ 31 / maxSws.toNat) (b := 2 ^ 31 % maxSws.toNat + 1)
      · omega
      · omega
      · omega
      · exact .inl (by omega)
    · apply exists_outside_of (a := 2 ^ 31 / maxSws.toNat) (b := 2 ^ 31 % maxSws.toNat)
      · omega
      · exact hmod
      · exact hne
      · exact .inl (by omega)

theorem copyDorClosure_of_ok (h : (copyDorClosure mem src dst).2 = true) :
    (copyDorClosure mem src dst).1 =
      ⟨src.closureMaxSws, src.dorLeft.map (List.take (copySize src.closureMaxSws).toNat),
        src.dorRight.map (List.take (copySize src.closureMaxSws).toNat),
        src.dorBroken.map (List.take (copySize src.closureMaxSws).toNat)⟩ := by
  unfold copyDorClosure at h ⊢
  cases mem with
  | mk left right broken => cases left <;> cases right <;> cases broken <;> first | rfl | cases h

/-- A closure that is copied is the same just if there are not two switches. -/
theorem postProcessRouting_copies_iff (calcClosure : ClosureMaps → ClosureMaps × Bool)
    (src dst : ClosureMaps)
    (h : (copyDorClosure mem src { dst with closureMaxSws := src.closureMaxSws }).2 = true) :
    CopiesClosure src
        (postProcessRouting mem false src.closureMaxSws calcClosure src dst).1 ↔
      src.closureMaxSws.toNat ≤ 1 := by
  constructor
  · intro hcopies
    by_contra hlt
    obtain ⟨x, y, hx, hy, hne, hout⟩ := exists_outside src.closureMaxSws (by omega)
    have hzero : src.closureMaxSws ≠ 0 := by
      intro hzero
      rw [hzero] at hlt
      exact hlt (by decide)
    have hin := hcopies.inside x y hx hy hne
    unfold postProcessRouting at hin
    simp only [if_neg hzero, Bool.false_eq_true, if_false, copyDorClosure_of_ok h] at hin
    have hleft := hin _ (List.mem_cons_self)
    rw [hout.ijBiuGet] at hleft
    cases hleft
  · intro hle
    have hnone : ∀ i j, i < src.closureMaxSws → j < src.closureMaxSws → i ≠ j → False := by
      intro i j hi hj hne
      rw [BitVec.lt_def] at hi hj
      exact hne (BitVec.eq_of_toNat_eq (by omega))
    exact ⟨fun i j hi hj hne => (hnone i j hi hj hne).elim,
      fun i j hi hj hne => (hnone i j hi hj hne).elim,
      fun i j hi hj hne => (hnone i j hi hj hne).elim,
      fun i j hi hj hne => (hnone i j hi hj hne).elim⟩

/-- The maps of two switches with one hop between them, as they are calculated. -/
def twoSwitches : ClosureMaps where
  closureMaxSws := 2
  dorLeft := some (List.replicate 8 0xff ++ [1, 0, 0, 0] ++ List.replicate 5 0xff)
  dorRight := some ([0xff, 0xff, 0xff, 0xff, 1, 0, 0, 0] ++ List.replicate 9 0xff)
  dorBroken := some (List.replicate 17 0xff)

def noMaps : ClosureMaps := ⟨0, none, none, none⟩

theorem postProcessRouting_copies_iff_two :
    CopiesClosure twoSwitches (postProcessRouting ⟨true, true, true⟩ false
        twoSwitches.closureMaxSws (fun m => (m, true)) twoSwitches noMaps).1 ↔
      twoSwitches.closureMaxSws.toNat ≤ 1 :=
  postProcessRouting_copies_iff _ twoSwitches noMaps (by decide)

/-- The copied maps of two switches have one byte each. -/
theorem not_postProcessRouting_copies :
    ¬CopiesClosure twoSwitches (postProcessRouting ⟨true, true, true⟩ false
        twoSwitches.closureMaxSws (fun m => (m, true)) twoSwitches noMaps).1 := by
  intro h
  exact absurd (h.left 1 0 (by decide) (by decide) (by decide)) (by decide)

end OpaFm.DorBiu
