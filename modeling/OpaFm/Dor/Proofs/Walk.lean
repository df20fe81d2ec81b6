import OpaFm.Dor.Proofs.Geometry

/-!
# The recursive walk

What one call of `_is_path_realizable` does in terms of the calls it makes, and that the
recursion ends.
-/

namespace OpaFm.Dor

namespace DorClosure

variable {n : Nat} {cl : DorClosure n} {x y e d : Fin n} {w w' : Way}

theorem ijSet_apply (bits : Fin n → Fin n → Bool) (i j x y : Fin n) :
    ijSet bits i j x y = (decide (x = i ∧ y = j) || bits x y) := by
  unfold ijSet
  by_cases hx : x = i
  · subst hx
    by_cases hy : y = j
    · simp [hy]
    · simp [hy]
  · simp [hx]

theorem bit_set (cl : DorClosure n) (i j : Fin n) (w w' : Way) (x y : Fin n) :
    (cl.set i j w).bit w' x y = (decide (x = i ∧ y = j ∧ w' = w) || cl.bit w' x y) := by
  cases w <;> cases w' <;> simp [set, bit, ijSet_apply]

@[simp] theorem bit_setBroken (cl : DorClosure n) (i j : Fin n) (w : Way) :
    (cl.setBroken i j).bit w = cl.bit w := by
  cases w <;> rfl

theorem routed_iff (w : Way) : cl.routed x y = true ↔ cl.bit w x y = true ∨ cl.bit w.other x y = true := by
  unfold routed
  cases w
  · simp [bit, Way.other]
  · simp [bit, Way.other, or_comm]

theorem bit_eq_false_of_not_routed (h : cl.routed x y = false) (w : Way) : cl.bit w x y = false := by
  rw [← Bool.not_eq_true, routed_iff w, not_or] at h
  simpa using h.1

theorem routed_of_bit (h : cl.bit w x y = true) : cl.routed x y = true := (routed_iff w).mpr (.inl h)

theorem bit_set_of_bit (h : cl.bit w' x y = true) (i j : Fin n) (w : Way) :
    (cl.set i j w).bit w' x y = true := by
  rw [bit_set, h, Bool.or_true]

theorem routed_set_of_routed (h : cl.routed x y = true) (i j : Fin n) (w : Way) :
    (cl.set i j w).routed x y = true := by
  rcases (routed_iff w).mp h with hb | hb
  · exact routed_of_bit (bit_set_of_bit hb i j w)
  · exact routed_of_bit (bit_set_of_bit hb i j w)

theorem bit_set_self (cl : DorClosure n) (i j : Fin n) (w : Way) : (cl.set i j w).bit w i j = true := by
  rw [bit_set]
  simp

theorem bit_set_of_ne (hne : x ≠ d ∨ y ≠ e) : (cl.set d e w).bit w' x y = cl.bit w' x y := by
  rw [bit_set]
  rcases hne with hne | hne <;> simp [hne]

end DorClosure

namespace DorFabric

open DorTopology

variable {n D : Nat} {F : DorFabric n D} {cl cl' : DorClosure n} {src dst x y d : Fin n}
  {i k : Fin D} {dir : DorDirection} {w : Way} {ok longer : Bool} {fuel : Nat}
  {walk : DorClosure n → Fin n → DorDirection → Option (DorClosure n × Bool)}

def onward (F : DorFabric n D) (w : Way) (y dst : Fin n) (i : Fin D) : DorDirection :=
  if F.coords y i = F.coords dst i then .any else w.direction

theorem visit_eq_some (h : F.visit walk i src dst w cl = some (cl', ok)) :
    (F.neighbor w src i = none ∧ cl' = cl ∧ ok = false) ∨
      (F.neighbor w src i = some dst ∧ cl' = cl ∧ ok = true) ∨
      ∃ y, F.neighbor w src i = some y ∧ y ≠ dst ∧ walk cl y (F.onward w y dst i) = some (cl', ok) := by
  unfold DorTopology.visit at h
  split at h
  next hnone =>
    cases h
    exact .inl ⟨hnone, rfl, rfl⟩
  next y hy =>
    split at h
    next heq =>
      cases h
      exact .inr (.inl ⟨heq ▸ hy, rfl, rfl⟩)
    next hne => exact .inr (.inr ⟨y, hy, hne, h⟩)

theorem tryWay_eq_some (h : F.tryWay walk i src dst longer w cl = some cl') :
    (∃ clA, F.visit walk i src dst w cl = some (clA, true) ∧ cl' = clA.set src dst w) ∨
      (longer = true ∧ ∃ clA y clB ok, F.visit walk i src dst w cl = some (clA, false) ∧
        F.neighbor w.other src i = some y ∧ walk clA y w.other.direction = some (clB, ok) ∧
        cl' = if ok then clB.set src dst w.other else clB) ∨
      (F.visit walk i src dst w cl = some (cl', false) ∧
        (longer = true → F.neighbor w.other src i = none)) := by
  unfold DorTopology.tryWay at h
  obtain ⟨⟨clA, okA⟩, hvisit, h⟩ := Option.bind_eq_some_iff.mp h
  cases okA with
  | true =>
    simp only [if_true, Option.some.injEq] at h
    exact .inl ⟨clA, hvisit, h.symm⟩
  | false =>
    simp only [Bool.false_eq_true, if_false] at h
    split at h
    next hlonger =>
      split at h
      next hnone =>
        cases h
        exact .inr (.inr ⟨hvisit, fun _ => hnone⟩)
      next y hy =>
        obtain ⟨⟨clB, okB⟩, hwalk, h⟩ := Option.bind_eq_some_iff.mp h
        simp only [Option.some.injEq] at h
        exact .inr (.inl ⟨hlonger, clA, y, clB, okB, hvisit, hy, hwalk, h.symm⟩)
    next hlonger =>
      cases h
      exact .inr (.inr ⟨hvisit, fun hl => absurd hl hlonger⟩)

def walkTo (F : DorFabric n D) (fuel : Nat) (dst : Fin n) :
    DorClosure n → Fin n → DorDirection → Option (DorClosure n × Bool) :=
  fun cl x dir => F.isPathRealizable fuel cl x dst dir

theorem isPathRealizable_eq_some (h : F.isPathRealizable (fuel + 1) cl src dst dir = some (cl', ok)) :
    (src = dst ∧ cl' = cl ∧ ok = true) ∨
      (src ≠ dst ∧ cl.routed src dst = true ∧ cl' = cl ∧ ok = true) ∨
      (src ≠ dst ∧ cl.routed src dst = false ∧ cl.dorBroken src dst = true ∧ cl' = cl ∧
        ok = false) ∨
      ∃ i clA clB, F.firstDifference src dst = some i ∧ cl.routed src dst = false ∧
        cl.dorBroken src dst = false ∧ F.attempt (F.walkTo fuel dst) i src dst dir .right cl = some clA ∧
        F.attempt (F.walkTo fuel dst) i src dst dir .left clA = some clB ∧ ok = clB.routed src dst ∧
        cl' = if ok then clB else clB.setBroken src dst := by
  rw [isPathRealizable] at h
  split at h
  next heq =>
    cases h
    exact .inl ⟨heq, rfl, rfl⟩
  next hne =>
    split at h
    next hrouted =>
      cases h
      exact .inr (.inl ⟨hne, hrouted, rfl, rfl⟩)
    next hrouted =>
      rw [Bool.not_eq_true] at hrouted
      split at h
      next hbroken =>
        cases h
        exact .inr (.inr (.inl ⟨hne, hrouted, hbroken, rfl, rfl⟩))
      next hbroken =>
        rw [Bool.not_eq_true] at hbroken
        obtain ⟨i, hi⟩ := F.exists_firstDifference hne
        simp only [hi] at h
        obtain ⟨clA, hA, h⟩ := Option.bind_eq_some_iff.mp h
        obtain ⟨clB, hB, h⟩ := Option.bind_eq_some_iff.mp h
        refine .inr (.inr (.inr ⟨i, clA, clB, hi, hrouted, hbroken, hA, hB, ?_⟩))
        split at h
        next hok =>
          cases h
          exact ⟨hok.symm, rfl⟩
        next hok =>
          rw [Bool.not_eq_true] at hok
          cases h
          exact ⟨hok.symm, rfl⟩

/-! ## Termination -/

def walkBound (F : DorFabric n D) (x d : Fin n) (dir : DorDirection) : Nat :=
  match F.firstDifference x d with
  | none => 0
  | some i =>
    F.later i +
      match dir with
      | .any => F.dimensionLength i
      | .left => F.dist .left x d i
      | .right => F.dist .right x d i

theorem walkBound_committed (hi : F.firstDifference x d = some i) (w : Way) :
    F.walkBound x d w.direction = F.later i + F.dist w x d i := by
  unfold walkBound
  rw [hi]
  cases w <;> rfl

theorem walkBound_any_le (F : DorFabric n D) (x d : Fin n) (i : Fin D)
    (hlt : ∀ k, F.firstDifference x d = some k → i < k) : F.walkBound x d .any ≤ F.later i := by
  unfold walkBound
  cases hk : F.firstDifference x d with
  | none => exact Nat.zero_le _
  | some k => exact later_add_le (hlt k hk)

theorem walkBound_neighbor (hi : F.firstDifference src dst = some i)
    (hy : F.neighbor w src i = some y) (hdir : dir = .any ∨ dir = w.direction) :
    F.walkBound y dst (F.onward w y dst i) < F.walkBound src dst dir := by
  obtain ⟨hne, -⟩ := firstDifference_eq_some_iff.mp hi
  have hstep := dist_neighbor hy hne
  have hlt := F.dist_lt w src dst i
  have hsrc : F.later i + F.dist w src dst i ≤ F.walkBound src dst dir := by
    rcases hdir with rfl | rfl
    · unfold walkBound
      rw [hi]
      simp only
      omega
    · rw [walkBound_committed hi w]
  unfold onward
  split
  next heq =>
    have hle := F.walkBound_any_le y dst i fun k hk => lt_firstDifference_neighbor hi hy heq hk
    omega
  next hnear =>
    rw [walkBound_committed (firstDifference_neighbor hi hy hnear) w]
    omega

theorem onward_of_not_goes (hgo : F.goes i .any (F.coords src i) (F.coords dst i) w = false)
    (hy : F.neighbor w src i = some y) (hne : F.coords src i ≠ F.coords dst i) :
    F.onward w y dst i = w.direction :=
  if_neg (coords_ne_of_not_goes hgo hy hne)

theorem any_or_direction_of_goes {si di : Int} (h : F.goes i dir si di w = true) :
    dir = .any ∨ dir = w.direction := by
  cases dir with
  | any => exact .inl rfl
  | left =>
    have hw := (F.goes_direction .left w i si di).mp h
    exact .inr (by rw [hw]; rfl)
  | right =>
    have hw := (F.goes_direction .right w i si di).mp h
    exact .inr (by rw [hw]; rfl)

theorem attempt_isSome (hi : F.firstDifference src dst = some i)
    (hwalk : ∀ cl w y, F.neighbor w src i = some y → dir = .any ∨ dir = w.direction →
      ∃ r, F.walkTo fuel dst cl y (F.onward w y dst i) = some r)
    (w : Way) (cl : DorClosure n) : ∃ cl', F.attempt (F.walkTo fuel dst) i src dst dir w cl = some cl' := by
  obtain ⟨hne, -⟩ := firstDifference_eq_some_iff.mp hi
  unfold DorTopology.attempt
  simp only
  split
  next hgo =>
    have hdir : dir = .any ∨ dir = w.direction := by
      cases dir with
      | any => exact .inl rfl
      | left =>
        have hw := (F.goes_direction .left w i _ _).mp hgo
        exact .inr (by rw [hw]; rfl)
      | right =>
        have hw := (F.goes_direction .right w i _ _).mp hgo
        exact .inr (by rw [hw]; rfl)
    have hvisit : ∃ r, F.visit (F.walkTo fuel dst) i src dst w cl = some r := by
      unfold DorTopology.visit
      split
      next => exact ⟨_, rfl⟩
      next y hy =>
        split
        next => exact ⟨_, rfl⟩
        next => exact hwalk cl w y hy hdir
    obtain ⟨⟨clA, okA⟩, hA⟩ := hvisit
    unfold DorTopology.tryWay
    simp only [hA, Option.bind_eq_bind, Option.bind_some]
    split
    next => exact ⟨_, rfl⟩
    next =>
      split
      next hlonger =>
        obtain ⟨hany, hother⟩ := (Bool.and_eq_true _ _).mp hlonger
        have hany : dir = .any := of_decide_eq_true hany
        subst hany
        split
        next => exact ⟨_, rfl⟩
        next y hy =>
          have honward := onward_of_not_goes (by simpa using hother) hy hne
          obtain ⟨r, hr⟩ := hwalk clA w.other y hy (.inl rfl)
          rw [honward] at hr
          rw [hr]
          exact ⟨_, rfl⟩
      next => exact ⟨_, rfl⟩
  next => exact ⟨cl, rfl⟩

theorem isPathRealizable_isSome (hfuel : F.walkBound src dst dir < fuel) :
    ∃ r, F.isPathRealizable fuel cl src dst dir = some r := by
  induction fuel generalizing cl src dir with
  | zero => exact absurd hfuel (Nat.not_lt_zero _)
  | succ fuel ih =>
    rw [isPathRealizable]
    split
    next => exact ⟨_, rfl⟩
    next hne =>
      split
      next => exact ⟨_, rfl⟩
      next =>
        split
        next => exact ⟨_, rfl⟩
        next =>
          obtain ⟨i, hi⟩ := F.exists_firstDifference hne
          have hwalk : ∀ cl w y, F.neighbor w src i = some y → dir = .any ∨ dir = w.direction →
              ∃ r, F.walkTo fuel dst cl y (F.onward w y dst i) = some r := by
            intro cl w y hy hdir
            have hlt := walkBound_neighbor hi hy hdir
            exact ih (by omega)
          obtain ⟨clA, hA⟩ := attempt_isSome hi hwalk .right cl
          obtain ⟨clB, hB⟩ := attempt_isSome hi hwalk .left clA
          simp only [hi]
          change ∃ r, (F.attempt (F.walkTo fuel dst) i src dst dir .right cl).bind _ = some r
          rw [hA]
          change ∃ r, (F.attempt (F.walkTo fuel dst) i src dst dir .left clA).bind _ = some r
          rw [hB]
          simp only [Option.bind_some]
          split <;> exact ⟨_, rfl⟩

end DorFabric

end OpaFm.Dor
