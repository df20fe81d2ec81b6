import OpaFm.Dor.Closure
import OpaFm.Lib.Fifo
import Mathlib.Algebra.BigOperators.Fin
import Mathlib.Algebra.Order.BigOperators.Group.Finset

/-!
# Distances in a mesh or torus

Coordinates as positions on a ring, how far a switch is from another one by each way along
a dimension, and which way `_is_path_realizable` prefers.
-/

namespace OpaFm.Dor

open OpaFm.Lib

namespace DorFabric

variable {n D : Nat} (F : DorFabric n D)

def pos (x : Fin n) (i : Fin D) : Nat := (F.coords x i - F.coordMinimum i).toNat

def dist (w : Way) (x d : Fin n) (i : Fin D) : Nat :=
  match w with
  | .right => ahead (F.dimensionLength i) (F.pos x i) (F.pos d i)
  | .left => ahead (F.dimensionLength i) (F.pos d i) (F.pos x i)

variable {F}
variable {x y d : Fin n} {i k : Fin D} {w : Way}

theorem coordMaximum_eq (F : DorFabric n D) (i : Fin D) :
    F.coordMaximum i = F.coordMinimum i + F.dimensionLength i - 1 := by
  unfold DorTopology.coordMaximum DorTopology.coordMinimum
  cases F.toroidal i <;> simp
  split <;> omega

theorem pos_lt (F : DorFabric n D) (x : Fin n) (i : Fin D) : F.pos x i < F.dimensionLength i := by
  have hmem := F.coords_mem x i
  have hmax := F.coordMaximum_eq i
  unfold pos
  omega

theorem coords_eq_pos (F : DorFabric n D) (x : Fin n) (i : Fin D) :
    F.coords x i = F.coordMinimum i + F.pos x i := by
  have hmem := F.coords_mem x i
  unfold pos
  omega

theorem pos_eq_iff : F.pos x i = F.pos y i ↔ F.coords x i = F.coords y i := by
  have hx := F.coords_eq_pos x i
  have hy := F.coords_eq_pos y i
  omega

/-! ## Neighbours -/

theorem neighbor_symm (h : F.neighbor w x i = some y) : F.neighbor w.other y i = some x := by
  cases w with
  | left => exact (F.left_iff y x i).mp h
  | right => exact (F.left_iff x y i).mpr h

theorem neighbor_coords (h : F.neighbor w x i = some y) (hk : k ≠ i) : F.coords y k = F.coords x k := by
  cases w with
  | left => exact ((F.right_coords y x i ((F.left_iff y x i).mp h)).1 k hk).symm
  | right => exact (F.right_coords x y i h).1 k hk

private theorem right_pos (h : F.right x i = some y) :
    F.pos y i = after (F.dimensionLength i) (F.pos x i) := by
  have hx := F.coords_eq_pos x i
  have hy := F.coords_eq_pos y i
  have hxl := F.pos_lt x i
  have hyl := F.pos_lt y i
  have hmax := F.coordMaximum_eq i
  unfold after
  rcases (F.right_coords x y i h).2 with hnext | ⟨-, hlast, hfirst⟩
  · split <;> omega
  · split <;> omega

theorem neighbor_pos (h : F.neighbor w x i = some y) :
    match w with
    | .right => F.pos y i = after (F.dimensionLength i) (F.pos x i)
    | .left => F.pos x i = after (F.dimensionLength i) (F.pos y i) := by
  cases w with
  | left => exact right_pos ((F.left_iff y x i).mp h)
  | right => exact right_pos h

/-! ## Distances -/

theorem dist_lt (F : DorFabric n D) (w : Way) (x d : Fin n) (i : Fin D) :
    F.dist w x d i < F.dimensionLength i := by
  cases w with
  | left => exact ahead_lt (F.pos_lt d i) (F.pos_lt x i)
  | right => exact ahead_lt (F.pos_lt x i) (F.pos_lt d i)

theorem dist_eq_zero_iff : F.dist w x d i = 0 ↔ F.coords x i = F.coords d i := by
  rw [← pos_eq_iff]
  cases w with
  | left => exact (ahead_eq_zero_iff (F.pos_lt d i)).trans eq_comm
  | right => exact ahead_eq_zero_iff (F.pos_lt x i)

theorem dist_add_other (hne : F.coords x i ≠ F.coords d i) :
    F.dist w x d i + F.dist w.other x d i = F.dimensionLength i := by
  rw [← pos_eq_iff.ne] at hne
  cases w with
  | left => exact ahead_add_ahead hne.symm (F.pos_lt d i) (F.pos_lt x i)
  | right => exact ahead_add_ahead hne (F.pos_lt x i) (F.pos_lt d i)

theorem dist_neighbor (h : F.neighbor w x i = some y) (hne : F.coords x i ≠ F.coords d i) :
    F.dist w y d i + 1 = F.dist w x d i := by
  have hpos := neighbor_pos h
  rw [← pos_eq_iff.ne] at hne
  cases w with
  | left =>
    simp only at hpos
    simp only [dist, hpos]
    rw [hpos] at hne
    exact (ahead_to_after hne (F.pos_lt d i)).symm
  | right =>
    simp only at hpos
    simp only [dist, hpos]
    exact ahead_after hne (F.pos_lt x i) (F.pos_lt d i)

theorem dist_other_neighbor (h : F.neighbor w x i = some y) (hne : F.coords y i ≠ F.coords d i) :
    F.dist w.other y d i = F.dist w.other x d i + 1 := by
  have hback := dist_neighbor (neighbor_symm h) hne
  exact hback.symm

/-! ## The first difference -/

theorem firstDifference_eq_some_iff :
    F.firstDifference x y = some i ↔
      F.coords x i ≠ F.coords y i ∧ ∀ k, k < i → F.coords x k = F.coords y k := by
  unfold DorTopology.firstDifference
  rw [Fin.find?_eq_some_iff]
  simp

theorem firstDifference_eq_none_iff : F.firstDifference x y = none ↔ x = y := by
  unfold DorTopology.firstDifference
  rw [Fin.find?_eq_none_iff]
  constructor
  · intro h
    apply F.coords_injective
    ext k
    simpa using h k
  · rintro rfl k
    simp

theorem exists_firstDifference (hne : x ≠ y) : ∃ i, F.firstDifference x y = some i := by
  rw [← Option.isSome_iff_exists, Option.isSome_iff_ne_none]
  exact fun hnone => hne (firstDifference_eq_none_iff.mp hnone)

theorem ne_of_firstDifference (h : F.firstDifference x d = some i) : x ≠ d := by
  rintro rfl
  exact (firstDifference_eq_some_iff.mp h).1 rfl

theorem firstDifference_neighbor (h : F.firstDifference x d = some i) (hn : F.neighbor w x i = some y)
    (hne : F.coords y i ≠ F.coords d i) : F.firstDifference y d = some i := by
  obtain ⟨-, hbefore⟩ := firstDifference_eq_some_iff.mp h
  apply firstDifference_eq_some_iff.mpr
  refine ⟨hne, fun k hk => ?_⟩
  rw [neighbor_coords hn hk.ne, hbefore k hk]

theorem lt_firstDifference_neighbor (h : F.firstDifference x d = some i)
    (hn : F.neighbor w x i = some y) (heq : F.coords y i = F.coords d i)
    (hy : F.firstDifference y d = some k) : i < k := by
  obtain ⟨-, hbefore⟩ := firstDifference_eq_some_iff.mp h
  obtain ⟨hne, -⟩ := firstDifference_eq_some_iff.mp hy
  rcases lt_trichotomy k i with hlt | rfl | hlt
  · rw [neighbor_coords hn hlt.ne] at hne
    exact absurd (hbefore k hlt) hne
  · exact absurd heq hne
  · exact hlt

/-! ## Preferred ways -/

theorem goes_direction (F : DorFabric n D) (w w' : Way) (i : Fin D) (si di : Int) :
    F.goes i w.direction si di w' = true ↔ w' = w := by
  cases w <;> cases w' <;> simp [DorTopology.goes, Way.direction]

theorem goes_any_iff_of_toroidal (htor : F.toroidal i = true)
    (hne : F.coords x i ≠ F.coords d i) :
    F.goes i .any (F.coords x i) (F.coords d i) w = true ↔
      F.dist w x d i ≤ F.dist w.other x d i := by
  have hx := F.coords_eq_pos x i
  have hd := F.coords_eq_pos d i
  have hxl := F.pos_lt x i
  have hdl := F.pos_lt d i
  unfold DorTopology.goes
  cases w <;> simp only [dist, Way.other, ahead, htor, Bool.true_and] <;>
    split_ifs <;> simp_all <;> omega

theorem goes_any_iff_of_mesh (htor : F.toroidal i = false) (hne : F.coords x i ≠ F.coords d i) :
    F.goes i .any (F.coords x i) (F.coords d i) w = true ↔
      match w with
      | .right => F.coords x i < F.coords d i
      | .left => F.coords d i < F.coords x i := by
  unfold DorTopology.goes
  cases w <;> simp only [htor, Bool.false_and] <;> split_ifs <;> simp_all <;> omega

theorem neighbor_coords_of_mesh (htor : F.toroidal i = false) (h : F.neighbor w x i = some y) :
    match w with
    | .right => F.coords y i = F.coords x i + 1
    | .left => F.coords x i = F.coords y i + 1 := by
  have hright : ∀ x y, F.right x i = some y → F.coords y i = F.coords x i + 1 := by
    intro x y hxy
    rcases (F.right_coords x y i hxy).2 with hnext | ⟨hwrap, -, -⟩
    · exact hnext
    · rw [htor] at hwrap
      cases hwrap
  cases w with
  | left => exact hright y x ((F.left_iff y x i).mp h)
  | right => exact hright x y h

theorem coords_ne_of_not_goes (hgo : F.goes i .any (F.coords x i) (F.coords d i) w = false)
    (h : F.neighbor w x i = some y) (hne : F.coords x i ≠ F.coords d i) :
    F.coords y i ≠ F.coords d i := by
  rw [← Bool.not_eq_true] at hgo
  cases htor : F.toroidal i with
  | true =>
    rw [goes_any_iff_of_toroidal htor hne] at hgo
    have hstep := dist_neighbor h hne
    have hother : F.dist w.other x d i ≠ 0 := fun h0 => hne (dist_eq_zero_iff.mp h0)
    rw [ne_eq, ← dist_eq_zero_iff (w := w)]
    omega
  | false =>
    rw [goes_any_iff_of_mesh htor hne] at hgo
    have hnext := neighbor_coords_of_mesh htor h
    cases w <;> simp only at hgo hnext <;> omega

theorem goes_or_other (hne : F.coords x i ≠ F.coords d i) :
    F.goes i .any (F.coords x i) (F.coords d i) w = true ∨
      F.goes i .any (F.coords x i) (F.coords d i) w.other = true := by
  cases htor : F.toroidal i with
  | true =>
    rw [goes_any_iff_of_toroidal htor hne, goes_any_iff_of_toroidal htor hne, Way.other_other]
    exact Nat.le_total _ _
  | false =>
    rw [goes_any_iff_of_mesh htor hne, goes_any_iff_of_mesh htor hne]
    cases w <;> simp only [Way.other] <;> omega

/-! ## How long a walk may get -/

def later (F : DorFabric n D) (i : Fin D) : Nat := ∑ k ∈ Finset.univ.filter (i < ·), F.dimensionLength k

theorem later_add_le (hik : i < k) : F.later k + F.dimensionLength k ≤ F.later i := by
  have hsub : insert k (Finset.univ.filter (k < ·)) ⊆ Finset.univ.filter (i < ·) := by
    intro j hj
    rw [Finset.mem_insert, Finset.mem_filter] at hj
    rw [Finset.mem_filter]
    rcases hj with rfl | ⟨-, hkj⟩
    · exact ⟨Finset.mem_univ j, hik⟩
    · exact ⟨Finset.mem_univ j, hik.trans hkj⟩
  have hnotin : k ∉ Finset.univ.filter (k < ·) := by simp
  calc F.later k + F.dimensionLength k
      = ∑ j ∈ insert k (Finset.univ.filter (k < ·)), F.dimensionLength j := by
        rw [Finset.sum_insert hnotin, Nat.add_comm]
        rfl
    _ ≤ F.later i := Finset.sum_le_sum_of_subset hsub

theorem later_add_lt_walkFuel (F : DorFabric n D) (i : Fin D) :
    F.later i + F.dimensionLength i < F.walkFuel := by
  have hnotin : i ∉ Finset.univ.filter (i < ·) := by simp
  have hsum : F.later i + F.dimensionLength i ≤ ∑ k, F.dimensionLength k := by
    calc F.later i + F.dimensionLength i
        = ∑ j ∈ insert i (Finset.univ.filter (i < ·)), F.dimensionLength j := by
          rw [Finset.sum_insert hnotin, Nat.add_comm]
          rfl
      _ ≤ ∑ k, F.dimensionLength k := Finset.sum_le_sum_of_subset (Finset.subset_univ _)
  unfold DorTopology.walkFuel
  rw [← Fin.sum_univ_def]
  omega

end DorFabric

/-!
## Walks along a dimension

Which switches a number of links in a row leads to, the paths in dimension order made of
such walks, and the rings with a link or switch missing on which they are found.
-/

namespace DorFabric

open DorTopology

variable {n D : Nat} {F : DorFabric n D} {x y z d t : Fin n} {i j : Fin D} {k m : Nat} {w w' : Way}

def walkBy (F : DorFabric n D) (w : Way) (i : Fin D) : Nat → Fin n → Option (Fin n)
  | 0, x => some x
  | k + 1, x => (F.neighbor w x i).bind (F.walkBy w i k)

theorem walkBy_one (F : DorFabric n D) (w : Way) (i : Fin D) (x : Fin n) :
    F.walkBy w i 1 x = F.neighbor w x i := by
  show (F.neighbor w x i).bind some = _
  exact Option.bind_fun_some _

theorem walkBy_succ_eq_some :
    F.walkBy w i (k + 1) x = some z ↔ ∃ y, F.neighbor w x i = some y ∧ F.walkBy w i k y = some z :=
  Option.bind_eq_some_iff

theorem walkBy_add (F : DorFabric n D) (w : Way) (i : Fin D) (k m : Nat) (x : Fin n) :
    F.walkBy w i (k + m) x = (F.walkBy w i k x).bind (F.walkBy w i m) := by
  induction k generalizing x with
  | zero => rw [Nat.zero_add, walkBy, Option.bind_some]
  | succ k ih =>
    rw [Nat.succ_add, walkBy, walkBy, Option.bind_assoc]
    congr 1
    ext1 y
    exact ih y

theorem walkBy_add_eq_some :
    F.walkBy w i (k + m) x = some z ↔ ∃ y, F.walkBy w i k x = some y ∧ F.walkBy w i m y = some z := by
  rw [walkBy_add]
  exact Option.bind_eq_some_iff

theorem exists_walkBy_of_le (hmk : m ≤ k) (h : F.walkBy w i k x = some z) :
    ∃ y, F.walkBy w i m x = some y ∧ F.walkBy w i (k - m) y = some z := by
  rw [← Nat.add_sub_of_le hmk] at h
  exact walkBy_add_eq_some.mp h

theorem walkBy_symm (h : F.walkBy w i k x = some y) : F.walkBy w.other i k y = some x := by
  induction k generalizing x with
  | zero =>
    cases h
    rfl
  | succ k ih =>
    obtain ⟨z, hz, hrest⟩ := walkBy_succ_eq_some.mp h
    apply walkBy_add_eq_some.mpr
    refine ⟨z, ih hrest, ?_⟩
    rw [walkBy_one]
    exact neighbor_symm hz

theorem walkBy_coords (h : F.walkBy w i k x = some y) (hj : j ≠ i) : F.coords y j = F.coords x j := by
  induction k generalizing x with
  | zero =>
    cases h
    rfl
  | succ k ih =>
    obtain ⟨z, hz, hrest⟩ := walkBy_succ_eq_some.mp h
    rw [ih hrest, neighbor_coords hz hj]

theorem eq_of_walkBy (hy : F.walkBy w i k x = some y) (hz : F.walkBy w' i m x = some z)
    (heq : F.coords y i = F.coords z i) : y = z := by
  apply F.coords_injective
  ext j
  by_cases hj : j = i
  · rw [hj, heq]
  · rw [walkBy_coords hy hj, walkBy_coords hz hj]

/-! ### Distances -/

theorem dist_walkBy (h : F.walkBy w i k x = some y) (hk : k ≤ F.dist w x d i) :
    F.dist w y d i + k = F.dist w x d i := by
  induction k generalizing x with
  | zero =>
    cases h
    rfl
  | succ k ih =>
    obtain ⟨z, hz, hrest⟩ := walkBy_succ_eq_some.mp h
    have hne : F.coords x i ≠ F.coords d i := by
      rw [ne_eq, ← dist_eq_zero_iff (w := w)]
      omega
    have hstep := dist_neighbor hz hne
    have hz := ih hrest (by omega)
    omega

theorem dist_le_of_walkBy (h : F.walkBy w i k x = some y) (heq : F.coords y i = F.coords d i) :
    F.dist w x d i ≤ k := by
  by_contra hlt
  have hdist := dist_walkBy h (Nat.le_of_not_le hlt)
  have hzero : F.dist w y d i = 0 := dist_eq_zero_iff.mpr heq
  omega

theorem dist_of_neighbor (h : F.neighbor w x i = some y) (hL : 1 < F.dimensionLength i) :
    F.dist w x y i = 1 := by
  have hpos := neighbor_pos h
  have hx := F.pos_lt x i
  have hy := F.pos_lt y i
  cases w with
  | left =>
    simp only [after] at hpos
    unfold dist
    simp only [ahead]
    split_ifs at * <;> omega
  | right =>
    simp only [after] at hpos
    unfold dist
    simp only [ahead]
    split_ifs at * <;> omega

theorem walkBy_dimensionLength (h : F.walkBy w i (F.dimensionLength i) x = some y) : y = x := by
  have hx := F.pos_lt x i
  have hself : F.walkBy w i 0 x = some x := rfl
  apply eq_of_walkBy h hself
  by_cases hL : F.dimensionLength i = 1
  · have hy := F.pos_lt y i
    exact pos_eq_iff.mp (by omega)
  · obtain ⟨m, hm⟩ : ∃ m, F.dimensionLength i = m + 1 := ⟨F.dimensionLength i - 1, by omega⟩
    rw [hm] at h
    obtain ⟨z, hz, hrest⟩ := walkBy_succ_eq_some.mp h
    have hback := dist_of_neighbor (neighbor_symm hz) (by omega)
    have hne : F.coords z i ≠ F.coords x i := by
      rw [ne_eq, ← dist_eq_zero_iff (w := w.other)]
      omega
    have hround := dist_add_other (w := w) hne
    have harrive := dist_walkBy (d := x) hrest (by omega)
    exact dist_eq_zero_iff.mp (show F.dist w y x i = 0 by omega)

theorem walkBy_other_of_ring (hring : F.walkBy w i (F.dimensionLength i) x = some y)
    (h : F.walkBy w i m x = some z) (hm : m ≤ F.dimensionLength i) :
    F.walkBy w.other i (F.dimensionLength i - m) x = some z := by
  rw [walkBy_dimensionLength hring] at hring
  obtain ⟨z', hz', hrest⟩ := exists_walkBy_of_le hm hring
  rw [h] at hz'
  cases hz'
  exact walkBy_symm hrest

theorem dist_of_walkBy (h : F.walkBy w i k x = some y) (hk : k < F.dimensionLength i) :
    F.dist w x y i = k := by
  have hle := dist_le_of_walkBy h rfl
  by_contra hne
  -- otherwise the walk has been at `y` before and gone around
  obtain ⟨z, hz, hrest⟩ := exists_walkBy_of_le hle h
  have hzero : F.dist w z y i = 0 := by
    have := dist_walkBy hz (le_refl _)
    omega
  have hzy : z = y := eq_of_walkBy hz h (dist_eq_zero_iff.mp hzero)
  subst hzy
  obtain ⟨m, hm⟩ : ∃ m, k - F.dist w x z i = m + 1 := ⟨k - F.dist w x z i - 1, by omega⟩
  rw [hm] at hrest
  obtain ⟨u, hu, hback⟩ := walkBy_succ_eq_some.mp hrest
  have hL : 1 < F.dimensionLength i := by omega
  have hone := dist_of_neighbor (neighbor_symm hu) hL
  have hune : F.coords u i ≠ F.coords z i := by
    rw [ne_eq, ← dist_eq_zero_iff (w := w.other)]
    omega
  have hround := dist_add_other (w := w) hune
  have hlong := dist_le_of_walkBy hback rfl
  omega

/-! ### Paths in dimension order -/

/-- The paths that go one way round a dimension until it agrees with the destination, and
then on in the next one. -/
inductive DorPath (F : DorFabric n D) (d : Fin n) : Fin n → Prop
  | here : DorPath F d d
  | along {x y : Fin n} {i : Fin D} {k : Nat} (w : Way) :
      F.firstDifference x d = some i → F.walkBy w i k x = some y → F.coords y i = F.coords d i →
        DorPath F d y → DorPath F d x

def WayTo (F : DorFabric n D) (w : Way) (d x : Fin n) : Prop :=
  ∃ i k y, F.firstDifference x d = some i ∧ F.walkBy w i k x = some y ∧
    F.coords y i = F.coords d i ∧ F.DorPath d y

theorem dorPath_iff : F.DorPath d x ↔ x = d ∨ ∃ w, F.WayTo w d x := by
  constructor
  · intro h
    cases h with
    | here => exact .inl rfl
    | along w hi hwalk heq hpath => exact .inr ⟨w, _, _, _, hi, hwalk, heq, hpath⟩
  · rintro (rfl | ⟨w, i, k, y, hi, hwalk, heq, hpath⟩)
    · exact .here
    · exact .along w hi hwalk heq hpath

theorem wayTo_iff (hi : F.firstDifference x d = some i) :
    F.WayTo w d x ↔
      ∃ y, F.neighbor w x i = some y ∧ (F.coords y i = F.coords d i → F.DorPath d y) ∧
        (F.coords y i ≠ F.coords d i → F.WayTo w d y) := by
  have hne := (firstDifference_eq_some_iff.mp hi).1
  constructor
  · rintro ⟨i', k, z, hi', hwalk, heq, hpath⟩
    rw [hi] at hi'
    cases hi'
    cases k with
    | zero =>
      cases hwalk
      exact absurd heq hne
    | succ k =>
      obtain ⟨y, hy, hrest⟩ := walkBy_succ_eq_some.mp hwalk
      refine ⟨y, hy, fun harrived => ?_, fun hnear => ?_⟩
      · have hyz : y = z :=
          eq_of_walkBy ((F.walkBy_one w i x).trans hy) hwalk (harrived.trans heq.symm)
        exact hyz ▸ hpath
      · exact ⟨i, k, z, firstDifference_neighbor hi hy hnear, hrest, heq, hpath⟩
  · rintro ⟨y, hy, harrived, hnear⟩
    by_cases heq : F.coords y i = F.coords d i
    · exact ⟨i, 1, y, hi, (F.walkBy_one w i x).trans hy, heq, harrived heq⟩
    · obtain ⟨i', k, z, hi', hwalk, hz, hpath⟩ := hnear heq
      rw [firstDifference_neighbor hi hy heq] at hi'
      cases hi'
      exact ⟨i, k + 1, z, hi, walkBy_succ_eq_some.mpr ⟨y, hy, hwalk⟩, hz, hpath⟩

theorem wayTo_other_of_neighbor (hi : F.firstDifference x d = some i)
    (hy : F.neighbor w x i = some y) (hne : F.coords y i ≠ F.coords d i)
    (h : F.WayTo w.other d y) : F.WayTo w.other d x := by
  obtain ⟨z, hz, -, hnear⟩ := (wayTo_iff (firstDifference_neighbor hi hy hne)).mp h
  rw [neighbor_symm hy] at hz
  cases hz
  exact hnear (firstDifference_eq_some_iff.mp hi).1

theorem WayTo.walkBy_dist (h : F.WayTo w d x) (hi : F.firstDifference x d = some i) :
    ∃ y, F.walkBy w i (F.dist w x d i) x = some y ∧ F.coords y i = F.coords d i ∧ F.DorPath d y := by
  obtain ⟨i', k, z, hi', hwalk, heq, hpath⟩ := h
  rw [hi] at hi'
  cases hi'
  obtain ⟨y, hy, -⟩ := exists_walkBy_of_le (dist_le_of_walkBy hwalk heq) hwalk
  have hzero : F.dist w y d i = 0 := by
    have := dist_walkBy hy (le_refl _)
    omega
  have hyz : y = z := eq_of_walkBy hy hwalk ((dist_eq_zero_iff.mp hzero).trans heq.symm)
  exact ⟨y, hy, dist_eq_zero_iff.mp hzero, hyz ▸ hpath⟩

theorem WayTo.goes_of_mesh (h : F.WayTo w d x) (hi : F.firstDifference x d = some i)
    (htor : F.toroidal i = false) : F.goes i .any (F.coords x i) (F.coords d i) w = true := by
  have hline : ∀ k x y, F.walkBy w i k x = some y →
      match w with
      | .right => F.coords y i = F.coords x i + k
      | .left => F.coords x i = F.coords y i + k := by
    intro k
    induction k with
    | zero =>
      intro x y hxy
      cases hxy
      cases w <;> simp
    | succ k ih =>
      intro x z hxz
      obtain ⟨y, hy, hrest⟩ := walkBy_succ_eq_some.mp hxz
      have hfirst := neighbor_coords_of_mesh htor hy
      have hrest := ih y z hrest
      cases w <;> simp only at hfirst hrest ⊢ <;> omega
  have hne := (firstDifference_eq_some_iff.mp hi).1
  obtain ⟨y, hy, heq, -⟩ := h.walkBy_dist hi
  have hcoords := hline _ x y hy
  rw [goes_any_iff_of_mesh htor hne]
  cases w <;> simp only at hcoords ⊢ <;> omega

/-- No ring of a toroidal dimension has more than half its length, rounded up, and one link
more in a row, unless it is complete. -/
def LongArcsClose (F : DorFabric n D) : Prop :=
  ∀ i, F.toroidal i = true → ∀ x,
    (F.walkBy .right i ((F.dimensionLength i + 1) / 2 + 1) x).isSome →
      (F.walkBy .right i (F.dimensionLength i) x).isSome

theorem LongArcsClose.walkBy_other (hC : F.LongArcsClose) (htor : F.toroidal i = true)
    (h : F.walkBy w i m x = some z) (hlong : (F.dimensionLength i + 1) / 2 + 1 ≤ m)
    (hm : m ≤ F.dimensionLength i) :
    F.walkBy w.other i (F.dimensionLength i - m) x = some z := by
  cases w with
  | right =>
    obtain ⟨y, hy, -⟩ := exists_walkBy_of_le hlong h
    have hsome := hC i htor x (by rw [hy]; rfl)
    obtain ⟨u, hu⟩ := Option.isSome_iff_exists.mp hsome
    exact walkBy_other_of_ring hu h hm
  | left =>
    have hback := walkBy_symm h
    obtain ⟨y, hy, -⟩ := exists_walkBy_of_le hlong hback
    have hsome := hC i htor z (by rw [show F.walkBy .right i _ z = some y from hy]; rfl)
    obtain ⟨u, hu⟩ := Option.isSome_iff_exists.mp hsome
    exact walkBy_symm (walkBy_other_of_ring hu hback hm)

end DorFabric

end OpaFm.Dor
