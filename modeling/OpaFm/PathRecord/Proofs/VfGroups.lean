import OpaFm.PathRecord.PathRecordSet
import Mathlib.Order.Bounds.Basic

/-!
# Groups of virtual fabrics

The two nested scans of `sa_PathRecord_Set` clear the bits of the virtual fabrics that share a path
with an earlier one.  Here are the groups that result, each with the values over all virtual fabrics
of its P_Key and SL.
-/

namespace OpaFm.PathRecord

open OpaFm.Fabric OpaFm.Partition

variable {vfs : PathVFs} {p : PathParams} {g : VfPath} {v : PathVF} {s : Finset Nat} {k : Nat}

/-! ## Values -/

def VfPath.key (g : VfPath) : Nat × Nat := (pKeyValue g.pkey, g.sl)

def PathVF.key (v : PathVF) : Nat × Nat := (pKeyValue v.pkey, v.baseSl)

theorem VfPath.sameAs_iff : g.sameAs v = true ↔ g.key = v.key := by
  simp [VfPath.sameAs, VfPath.key, PathVF.key]

@[simp] theorem VfPath.key_first (p : PathParams) (v : PathVF) : (VfPath.first p v).key = v.key :=
  rfl

@[simp] theorem VfPath.key_merge (g : VfPath) (v : PathVF) : (g.merge v).key = g.key := rfl

structure Merged (p : PathParams) (vs : Set PathVF) (g : VfPath) : Prop where
  mtu : IsLeast (insert p.mtu ((fun v : PathVF => v.maxMtuInt) '' vs)) g.vfMtu
  rate_mem : g.vfRate ∈ insert p.rate ((fun v : PathVF => v.maxRateInt) '' vs)
  rate_le : ∀ r ∈ insert p.rate ((fun v : PathVF => v.maxRateInt) '' vs),
    linkrateGt g.vfRate r = false
  lifeMult : IsGreatest (PathVF.lifeMult '' vs) g.lifeMult

theorem slowerRate_eq_or (r r' : Nat) : slowerRate r r' = r ∨ slowerRate r r' = r' := by
  unfold slowerRate
  split_ifs
  · exact .inr rfl
  · exact .inl rfl

theorem linkrateGt_eq_false_iff {r r' : Nat} :
    linkrateGt r r' = false ↔ linkrateToOrdinal r ≤ linkrateToOrdinal r' := by
  rw [linkrateGt, decide_eq_false_iff_not, Nat.not_lt]

theorem ordinal_slowerRate (r r' : Nat) :
    linkrateToOrdinal (slowerRate r r') = min (linkrateToOrdinal r) (linkrateToOrdinal r') := by
  unfold slowerRate
  split_ifs with h
  · have := of_decide_eq_true h
    omega
  · have := linkrateGt_eq_false_iff.mp (Bool.not_eq_true _ ▸ h)
    omega

theorem VfPath.lifeMult_merge (g : VfPath) (v : PathVF) :
    (g.merge v).lifeMult = max g.lifeMult v.lifeMult := by
  simp only [VfPath.merge, PathVF.lifeMult]
  cases v.pktLifetimeSpecified with
  | false => simp
  | true =>
    simp only [true_and, if_true]
    split_ifs <;> omega

theorem VfPath.vfMtu_merge (g : VfPath) (v : PathVF) :
    (g.merge v).vfMtu = min g.vfMtu v.maxMtuInt := by
  simp only [VfPath.merge]
  split_ifs <;> omega

theorem Merged.first (p : PathParams) (v : PathVF) : Merged p {v} (VfPath.first p v) := by
  constructor
  · rw [Set.image_singleton]
    exact isLeast_pair
  · rw [Set.image_singleton]
    exact slowerRate_eq_or p.rate v.maxRateInt
  · intro r hr
    rw [Set.image_singleton] at hr
    have hord := ordinal_slowerRate p.rate v.maxRateInt
    rw [linkrateGt_eq_false_iff]
    change linkrateToOrdinal (slowerRate p.rate v.maxRateInt) ≤ linkrateToOrdinal r
    rcases hr with rfl | rfl <;> omega
  · rw [Set.image_singleton]
    exact isGreatest_singleton

theorem Merged.merge {vs : Set PathVF} (h : Merged p vs g) (v : PathVF) :
    Merged p (insert v vs) (g.merge v) := by
  constructor
  · rw [Set.image_insert_eq, Set.insert_comm, VfPath.vfMtu_merge, Nat.min_comm]
    exact h.mtu.insert v.maxMtuInt
  · rw [Set.image_insert_eq, Set.insert_comm]
    change slowerRate g.vfRate v.maxRateInt ∈ _
    rcases slowerRate_eq_or g.vfRate v.maxRateInt with heq | heq
    · rw [heq]
      exact .inr h.rate_mem
    · exact .inl heq
  · intro r hr
    rw [Set.image_insert_eq, Set.insert_comm] at hr
    have hord := ordinal_slowerRate g.vfRate v.maxRateInt
    rw [linkrateGt_eq_false_iff]
    change linkrateToOrdinal (slowerRate g.vfRate v.maxRateInt) ≤ linkrateToOrdinal r
    rcases hr with rfl | hr
    · omega
    · have := linkrateGt_eq_false_iff.mp (h.rate_le r hr)
      omega
  · rw [Set.image_insert_eq, VfPath.lifeMult_merge, Nat.max_comm]
    exact h.lifeMult.insert v.lifeMult

/-! ## One scan -/

def sharing (vfs : PathVFs) (s : Finset Nat) (l : List Nat) (g : VfPath) : Set PathVF :=
  {v | ∃ k ∈ l, k ∈ s ∧ vfs.vFabric[k]? = some v ∧ g.key = v.key}

theorem mem_sharing {l : List Nat} :
    v ∈ sharing vfs s l g ↔ ∃ k ∈ l, k ∈ s ∧ vfs.vFabric[k]? = some v ∧ g.key = v.key := Iff.rfl

theorem sharing_eq_empty {l : List Nat}
    (h : ∀ k ∈ l, k ∈ s → ∀ v, vfs.vFabric[k]? = some v → g.key ≠ v.key) :
    sharing vfs s l g = ∅ := by
  apply Set.eq_empty_iff_forall_notMem.mpr
  rintro v ⟨k, hk, hs, hv, hkey⟩
  exact h k hk hs v hv hkey

theorem key_mergeStep (vfs : PathVFs) (x : VfPath × Finset Nat) (k : Nat) :
    (mergeStep vfs x k).1.key = x.1.key := by
  unfold mergeStep
  split_ifs
  · cases vfs.vFabric[k]? with
    | none => rfl
    | some v =>
      dsimp only
      split_ifs <;> rfl
  · rfl

theorem mem_mergeStep {x : VfPath × Finset Nat} {j : Nat} :
    j ∈ (mergeStep vfs x k).2 ↔
      j ∈ x.2 ∧ ¬(j = k ∧ ∃ v, vfs.vFabric[k]? = some v ∧ x.1.key = v.key) := by
  unfold mergeStep
  by_cases hk : k ∈ x.2
  · rw [if_pos hk]
    cases hv : vfs.vFabric[k]? with
    | none => simp
    | some v =>
      dsimp only
      by_cases hsame : x.1.sameAs v = true
      · rw [if_pos hsame]
        have hkey := VfPath.sameAs_iff.mp hsame
        simp [hkey, Finset.mem_erase, and_comm]
      · rw [if_neg hsame]
        have hkey := mt VfPath.sameAs_iff.mpr hsame
        simp [hkey]
  · rw [if_neg hk]
    constructor
    · intro hj
      exact ⟨hj, fun h => hk (h.1 ▸ hj)⟩
    · intro hj
      exact hj.1

theorem Merged.mergeStep {vs : Set PathVF} {x : VfPath × Finset Nat} (h : Merged p vs x.1)
    (vfs : PathVFs) (k : Nat) : Merged p (vs ∪ sharing vfs x.2 [k] x.1) (mergeStep vfs x k).1 := by
  have hskip : sharing vfs x.2 [k] x.1 = ∅ → Merged p (vs ∪ sharing vfs x.2 [k] x.1) x.1 := by
    intro hempty
    rw [hempty, Set.union_empty]
    exact h
  unfold PathRecord.mergeStep
  by_cases hk : k ∈ x.2
  · rw [if_pos hk]
    cases hv : vfs.vFabric[k]? with
    | none =>
      apply hskip
      apply sharing_eq_empty
      simp [hv]
    | some v =>
      dsimp only
      by_cases hsame : x.1.sameAs v = true
      · have hkey := VfPath.sameAs_iff.mp hsame
        have hone : sharing vfs x.2 [k] x.1 = {v} := by
          ext w
          simp only [mem_sharing, List.mem_singleton, exists_eq_left, hk, hv, true_and,
            Option.some.injEq, Set.mem_singleton_iff]
          constructor
          · rintro ⟨rfl, -⟩
            rfl
          · rintro rfl
            exact ⟨rfl, hkey⟩
        rw [if_pos hsame, hone, Set.union_singleton]
        exact h.merge v
      · have hkey := mt VfPath.sameAs_iff.mpr hsame
        rw [if_neg hsame]
        apply hskip
        apply sharing_eq_empty
        simp [hv, hkey]
  · rw [if_neg hk]
    apply hskip
    apply sharing_eq_empty
    simp [hk]

theorem key_foldl_mergeStep (vfs : PathVFs) (l : List Nat) (x : VfPath × Finset Nat) :
    (l.foldl (mergeStep vfs) x).1.key = x.1.key := by
  induction l generalizing x with
  | nil => rfl
  | cons k l ih => rw [List.foldl_cons, ih, key_mergeStep]

theorem mem_foldl_mergeStep {l : List Nat} {x : VfPath × Finset Nat} {j : Nat} :
    j ∈ (l.foldl (mergeStep vfs) x).2 ↔
      j ∈ x.2 ∧ ¬(j ∈ l ∧ ∃ v, vfs.vFabric[j]? = some v ∧ x.1.key = v.key) := by
  induction l generalizing x with
  | nil => simp
  | cons k l ih =>
    rw [List.foldl_cons, ih, mem_mergeStep, key_mergeStep, List.mem_cons]
    grind

theorem Merged.foldl {vs : Set PathVF} {x : VfPath × Finset Nat} (h : Merged p vs x.1)
    (vfs : PathVFs) (l : List Nat) (hnodup : l.Nodup) :
    Merged p (vs ∪ sharing vfs x.2 l x.1) (l.foldl (PathRecord.mergeStep vfs) x).1 := by
  induction l generalizing x vs with
  | nil =>
    have hempty : sharing vfs x.2 [] x.1 = ∅ := sharing_eq_empty fun _ hk => nomatch hk
    rw [hempty, Set.union_empty]
    exact h
  | cons k l ih =>
    have hnotin := (List.nodup_cons.mp hnodup).1
    have hrest := ih (h.mergeStep vfs k) (List.nodup_cons.mp hnodup).2
    have hsets : vs ∪ sharing vfs x.2 [k] x.1 ∪
          sharing vfs (PathRecord.mergeStep vfs x k).2 l (PathRecord.mergeStep vfs x k).1 =
        vs ∪ sharing vfs x.2 (k :: l) x.1 := by
      rw [Set.union_assoc]
      congr 1
      ext v
      simp only [mem_sharing, key_mergeStep, mem_mergeStep, Set.mem_union, List.mem_cons]
      grind
    rw [hsets] at hrest
    exact hrest

/-! ## All scans -/

def vfGroups (vfs : PathVFs) (p : PathParams) : List Nat → Finset Nat → List VfPath
  | [], _ => []
  | vf :: rest, s =>
    if vf ∈ s then
      match vfs.vFabric[vf]? with
      | none => vfGroups vfs p rest s
      | some v =>
        let merged := mergeVfs vfs vf (VfPath.first p v, s)
        merged.1 :: vfGroups vfs p rest merged.2
    else vfGroups vfs p rest s

theorem range'_rest {vf n : Nat} (h : vf + (n + 1) = maxVfabrics) :
    List.range' (vf + 1) (maxVfabrics - (vf + 1)) = List.range' (vf + 1) n := by
  rw [← h, Nat.add_sub_add_left, Nat.add_sub_cancel]

theorem vfGroups_head {vf n : Nat} (h : vf + (n + 1) = maxVfabrics) (hvf : vf ∈ s)
    (hv : vfs.vFabric[vf]? = some v) :
    ∃ g s', vfGroups vfs p (List.range' vf (n + 1)) s =
        g :: vfGroups vfs p (List.range' (vf + 1) n) s' ∧
      g.key = v.key ∧ Merged p (sharing vfs s (List.range' vf (n + 1)) g) g ∧
      ∀ j ∈ List.range' (vf + 1) n, j ∈ s' ↔
        j ∈ s ∧ ∀ w, vfs.vFabric[j]? = some w → g.key ≠ w.key := by
  let merged := mergeVfs vfs vf (VfPath.first p v, s)
  have hmerged : merged =
      (List.range' (vf + 1) n).foldl (mergeStep vfs) (VfPath.first p v, s) := by
    rw [← range'_rest h]
    rfl
  have hkey : merged.1.key = v.key := by rw [hmerged, key_foldl_mergeStep, VfPath.key_first]
  refine ⟨merged.1, merged.2, ?_, hkey, ?_, ?_⟩
  · rw [List.range'_succ, vfGroups, if_pos hvf, hv]
  · have hfirst : Merged p {v} (VfPath.first p v, s).1 := Merged.first p v
    have hall := hfirst.foldl vfs (List.range' (vf + 1) n) List.nodup_range'
    have hsets : {v} ∪ sharing vfs s (List.range' (vf + 1) n) (VfPath.first p v) =
        sharing vfs s (List.range' vf (n + 1)) merged.1 := by
      ext w
      rw [List.range'_succ]
      simp only [Set.mem_union, Set.mem_singleton_iff, mem_sharing, List.mem_cons, hkey,
        VfPath.key_first]
      constructor
      · rintro (rfl | ⟨k, hk, hrest⟩)
        · exact ⟨vf, .inl rfl, hvf, hv, rfl⟩
        · exact ⟨k, .inr hk, hrest⟩
      · rintro ⟨k, rfl | hk, hs, hw, heq⟩
        · rw [hv, Option.some.injEq] at hw
          exact .inl hw.symm
        · exact .inr ⟨k, hk, hs, hw, heq⟩
    rw [← hsets, hmerged]
    exact hall
  · intro j hj
    rw [hmerged, mem_foldl_mergeStep, key_foldl_mergeStep]
    simp only [hj, true_and, not_exists, not_and]

theorem exists_of_mem_vfGroups {vf n : Nat} (h : vf + n = maxVfabrics)
    (hg : g ∈ vfGroups vfs p (List.range' vf n) s) :
    ∃ k ∈ List.range' vf n, k ∈ s ∧ ∃ v, vfs.vFabric[k]? = some v ∧ g.key = v.key := by
  induction n generalizing vf s with
  | zero => cases hg
  | succ n ih =>
    have hrest : vf + 1 + n = maxVfabrics := by omega
    have hin : ∀ k ∈ List.range' (vf + 1) n, k ∈ List.range' vf (n + 1) := by
      intro k hk
      rw [List.range'_succ]
      exact List.mem_cons_of_mem _ hk
    have hskip : ∀ s', (∀ k ∈ List.range' (vf + 1) n, k ∈ s' → k ∈ s) →
        g ∈ vfGroups vfs p (List.range' (vf + 1) n) s' →
        ∃ k ∈ List.range' vf (n + 1), k ∈ s ∧
          ∃ v, vfs.vFabric[k]? = some v ∧ g.key = v.key := by
      intro s' hsub hmem
      obtain ⟨k, hk, hs, hv⟩ := ih hrest hmem
      exact ⟨k, hin k hk, hsub k hk hs, hv⟩
    by_cases hvf : vf ∈ s
    · cases hv : vfs.vFabric[vf]? with
      | none =>
        rw [List.range'_succ, vfGroups, if_pos hvf, hv] at hg
        exact hskip s (fun _ _ hs => hs) hg
      | some v =>
        obtain ⟨g', s', hgroups, hkey, -, hleft⟩ := vfGroups_head (p := p) h hvf hv
        rw [hgroups] at hg
        rcases List.mem_cons.mp hg with rfl | hg
        · exact ⟨vf, List.mem_range'_1.mpr (by omega), hvf, v, hv, hkey⟩
        · exact hskip s' (fun k hk hs => ((hleft k hk).mp hs).1) hg
    · rw [List.range'_succ, vfGroups, if_neg hvf] at hg
      exact hskip s (fun _ _ hs => hs) hg

theorem nodup_key_vfGroups {vf n : Nat} (h : vf + n = maxVfabrics) :
    ((vfGroups vfs p (List.range' vf n) s).map VfPath.key).Nodup := by
  induction n generalizing vf s with
  | zero => exact List.nodup_nil
  | succ n ih =>
    have hrest : vf + 1 + n = maxVfabrics := by omega
    by_cases hvf : vf ∈ s
    · cases hv : vfs.vFabric[vf]? with
      | none =>
        rw [List.range'_succ, vfGroups, if_pos hvf, hv]
        exact ih hrest
      | some v =>
        obtain ⟨g, s', hgroups, -, -, hleft⟩ := vfGroups_head (p := p) h hvf hv
        rw [hgroups, List.map_cons, List.nodup_cons]
        refine ⟨?_, ih hrest⟩
        intro hmem
        obtain ⟨g', hg', heq⟩ := List.mem_map.mp hmem
        obtain ⟨k, hk, hs', w, hw, hkey⟩ := exists_of_mem_vfGroups hrest hg'
        exact ((hleft k hk).mp hs').2 w hw (heq.symm.trans hkey)
    · rw [List.range'_succ, vfGroups, if_neg hvf]
      exact ih hrest

theorem exists_group {vf n : Nat} (h : vf + n = maxVfabrics) (hk : k ∈ List.range' vf n)
    (hs : k ∈ s) (hv : vfs.vFabric[k]? = some v) :
    ∃ g ∈ vfGroups vfs p (List.range' vf n) s,
      g.key = v.key ∧ Merged p (sharing vfs s (List.range' vf n) g) g := by
  induction n generalizing vf s with
  | zero => cases hk
  | succ n ih =>
    have hrest : vf + 1 + n = maxVfabrics := by omega
    -- a group of the rest, where the scan of `vf` has left all that share its path
    have hlater : ∀ s', k ∈ List.range' (vf + 1) n → k ∈ s' →
        (∀ g : VfPath, g.key = v.key →
          sharing vfs s' (List.range' (vf + 1) n) g = sharing vfs s (List.range' vf (n + 1)) g) →
        ∃ g ∈ vfGroups vfs p (List.range' (vf + 1) n) s',
          g.key = v.key ∧ Merged p (sharing vfs s (List.range' vf (n + 1)) g) g := by
      intro s' hin hs' hsame
      obtain ⟨g, hg, hkey, hmerged⟩ := ih hrest hin hs'
      rw [hsame g hkey] at hmerged
      exact ⟨g, hg, hkey, hmerged⟩
    by_cases hvf : vf ∈ s
    · cases hw : vfs.vFabric[vf]? with
      | none =>
        rw [List.range'_succ, vfGroups, if_pos hvf, hw, ← List.range'_succ]
        rw [List.range'_succ, List.mem_cons] at hk
        apply hlater s
        · exact hk.resolve_left fun heq => by simp [← heq, hv] at hw
        · exact hs
        · intro g _
          ext u
          rw [List.range'_succ]
          simp only [mem_sharing, List.mem_cons]
          grind
      | some w =>
        obtain ⟨g, s', hgroups, hkey, hmerged, hleft⟩ := vfGroups_head (p := p) h hvf hw
        rw [hgroups]
        by_cases hsame : g.key = v.key
        · exact ⟨g, List.mem_cons_self, hsame, hmerged⟩
        · rw [List.range'_succ, List.mem_cons] at hk
          have hin : k ∈ List.range' (vf + 1) n := by
            apply hk.resolve_left
            rintro rfl
            rw [hv, Option.some.injEq] at hw
            exact hsame (hw ▸ hkey)
          have hs' : k ∈ s' := by
            apply (hleft k hin).mpr
            refine ⟨hs, ?_⟩
            intro u hu
            rw [hv, Option.some.injEq] at hu
            exact hu ▸ hsame
          obtain ⟨g', hg', hrep⟩ := hlater s' hin hs' fun g' hg' => by
            ext u
            rw [List.range'_succ]
            simp only [mem_sharing, List.mem_cons]
            grind
          exact ⟨g', List.mem_cons_of_mem _ hg', hrep⟩
    · rw [List.range'_succ, vfGroups, if_neg hvf, ← List.range'_succ]
      rw [List.range'_succ, List.mem_cons] at hk
      apply hlater s
      · exact hk.resolve_left fun heq => hvf (heq ▸ hs)
      · exact hs
      · intro g _
        ext u
        rw [List.range'_succ]
        simp only [mem_sharing, List.mem_cons]
        grind

end OpaFm.PathRecord
