import OpaFm.Multicast.Proofs.LidPool
import OpaFm.Multicast.LidPool

/-!
# The tables of lids of a standby

An MLID is in one table of lids at most, as long as no group is synchronized whose MLID the
default class holds for the same arguments in the place of the group's own class.
-/

namespace OpaFm.Multicast

open OpaFm.Lib

/-! ## The arguments a lid class was added for -/

def Keyed (m : List (LidClassKey × LidClass)) : Prop :=
  ∀ key l, (key, l) ∈ m → key = lidClassKey l.pKey l.mtu l.rate

structure SameFields (l l' : LidClass) : Prop where
  pKey : l'.pKey = l.pKey
  mtu : l'.mtu = l.mtu
  rate : l'.rate = l.rate

theorem heapTrickleUp_fields {l l' : LidClass} {i : Nat} (h : heapTrickleUp l i = .ok l') :
    SameFields l l' := by
  unfold heapTrickleUp heapChecked at h
  split at h
  · cases h
    exact ⟨rfl, rfl, rfl⟩
  · cases h

theorem heapTrickleDown_fields {l l' : LidClass} {i : Nat} (h : heapTrickleDown l i = .ok l') :
    SameFields l l' := by
  unfold heapTrickleDown heapChecked at h
  split at h
  · cases h
    exact ⟨rfl, rfl, rfl⟩
  · cases h

theorem bumpUsage_fields {l l' : LidClass} {i : Nat} (h : bumpUsage l i = .ok l') :
    SameFields l l' := by
  have hdown := heapTrickleDown_fields h
  exact ⟨hdown.pKey, hdown.mtu, hdown.rate⟩

theorem appendLid_fields {c : McGroupClass} {l l' : LidClass} {lid : Nat} {countFirst : Bool}
    (h : appendLid c l lid countFirst = .ok l') : SameFields l l' := by
  unfold appendLid at h
  split at h
  · cases h
  · split at h
    · cases h
    · cases countFirst with
      | true =>
        have hup := heapTrickleUp_fields h
        exact ⟨hup.pKey, hup.mtu, hup.rate⟩
      | false =>
        obtain ⟨m, hm, hl⟩ := bind_eq_ok.mp h
        have hup := heapTrickleUp_fields hm
        cases hl
        exact ⟨hup.pKey, hup.mtu, hup.rate⟩

theorem removeLid_fields {l l' : LidClass} {i : Nat} (h : removeLid l i = .ok l') :
    SameFields l l' := by
  simp only [removeLid] at h
  split at h
  · cases h
    exact ⟨rfl, rfl, rfl⟩
  · split at h
    · have hup := heapTrickleUp_fields h
      exact ⟨hup.pKey, hup.mtu, hup.rate⟩
    · have hdown := heapTrickleDown_fields h
      exact ⟨hdown.pKey, hdown.mtu, hdown.rate⟩

section Keys

variable {c c' : McGroupClass} {pKey mtu rate : Nat}

theorem Keyed.set {m : List (LidClassKey × LidClass)} (h : Keyed m) {key : LidClassKey}
    {l l' : LidClass} (hl : (key, l) ∈ m) (hsame : SameFields l l') :
    Keyed (AssocMap.set m key l') := by
  intro key' l'' hmem
  rcases AssocMap.mem_set hmem with ⟨rfl, rfl⟩ | ⟨_, hmem'⟩
  · rw [h key' l hl, hsame.pKey, hsame.mtu, hsame.rate]
  · exact h key' l'' hmem'

theorem Keyed.getOrAdd (h : Keyed c.usageMap) (pKey mtu rate : Nat) :
    Keyed (getOrAddLidClass c pKey mtu rate).1.usageMap ∧
      (lidClassKey pKey mtu rate, (getOrAddLidClass c pKey mtu rate).2) ∈
        (getOrAddLidClass c pKey mtu rate).1.usageMap := by
  unfold getOrAddLidClass
  cases hget : getLidClass c pKey mtu rate with
  | some l => exact ⟨h, AssocMap.mem_of_lookup hget⟩
  | none =>
    refine ⟨fun key l hmem => ?_, List.mem_cons_self⟩
    rcases List.mem_cons.mp hmem with heq | hmem
    · cases heq
      rfl
    · exact h key l hmem

theorem smMcGetGroupClassLid_keyed {tcap : MlidTableCap} {groups : List McGroup} {lid : Nat}
    {r : Except VStatus Nat} (h : Keyed c.usageMap)
    (hrun : smMcGetGroupClassLid tcap groups c pKey mtu rate lid = .ok (c', r)) :
    Keyed c'.usageMap := by
  unfold smMcGetGroupClassLid at hrun
  by_cases hroom : c.currentLids < c.maximumLids
  · obtain ⟨hkeyed, hmem⟩ := h.getOrAdd pKey mtu rate
    simp only [if_pos hroom] at hrun
    split at hrun
    · cases hfree : smMcFindUnusedLid tcap groups with
      | none =>
        rw [hfree] at hrun
        cases hrun
        exact hkeyed
      | some newLid =>
        rw [hfree] at hrun
        obtain ⟨l', hl', hc'⟩ := bind_eq_ok.mp hrun
        cases hc'
        exact hkeyed.set hmem (appendLid_fields hl')
    · cases hfind : findLid (getOrAddLidClass c pKey mtu rate).2 lid with
      | none =>
        rw [hfind] at hrun
        obtain ⟨l', hl', hc'⟩ := bind_eq_ok.mp hrun
        cases hc'
        exact hkeyed.set hmem (appendLid_fields hl')
      | some index =>
        rw [hfind] at hrun
        obtain ⟨l', hl', hc'⟩ := bind_eq_ok.mp hrun
        cases hc'
        exact hkeyed.set hmem (bumpUsage_fields hl')
  · simp only [if_neg hroom] at hrun
    cases hget : getLidClass c pKey mtu rate with
    | none =>
      rw [hget] at hrun
      cases hrun
      exact h
    | some l =>
      have hmem := AssocMap.mem_of_lookup hget
      simp only [hget] at hrun
      split at hrun
      · split at hrun
        · cases hrun
        · obtain ⟨l', hl', hc'⟩ := bind_eq_ok.mp hrun
          cases hc'
          exact h.set hmem (bumpUsage_fields hl')
      · cases hfind : findLid l lid with
        | none =>
          rw [hfind] at hrun
          cases hrun
          exact h
        | some index =>
          rw [hfind] at hrun
          obtain ⟨l', hl', hc'⟩ := bind_eq_ok.mp hrun
          cases hc'
          exact h.set hmem (bumpUsage_fields hl')

theorem releaseLid_keyed {key : LidClassKey} {l : LidClass} {i : Nat} (h : Keyed c.usageMap)
    (hl : (key, l) ∈ c.usageMap) (hrun : releaseLid c key l i = .ok c') : Keyed c'.usageMap := by
  simp only [releaseLid] at hrun
  split at hrun
  · cases hrun
  · split at hrun
    · obtain ⟨l', hl', hc'⟩ := bind_eq_ok.mp hrun
      cases hc'
      have hsame := removeLid_fields hl'
      exact h.set hl ⟨hsame.pKey, hsame.mtu, hsame.rate⟩
    · obtain ⟨l', hl', hc'⟩ := bind_eq_ok.mp hrun
      cases hc'
      have hsame := heapTrickleUp_fields hl'
      exact h.set hl ⟨hsame.pKey, hsame.mtu, hsame.rate⟩

def PoolKeyed (p : McPool) : Prop := ∀ ref, Keyed (p.groupClass ref).usageMap

theorem PoolKeyed.setClass {p : McPool} (h : PoolKeyed p) {ref : ClassRef}
    (hc : Keyed c.usageMap) : PoolKeyed (p.setClass ref c) := by
  intro r
  by_cases hr : r = ref
  · rwa [hr, McPool.setClass_self]
  · rw [McPool.setClass_other p hr]
    exact h r

theorem smMulticastAssignLid_keyed {tcap : MlidTableCap} {p p' : McPool}
    {groups : List McGroup} {mGid : IbGid} {r : Except VStatus Nat} (h : PoolKeyed p)
    (hrun : smMulticastAssignLid tcap p groups mGid pKey mtu rate = .ok (p', r)) :
    PoolKeyed p' := by
  simp only [smMulticastAssignLid] at hrun
  split at hrun
  · split at hrun
    · cases hrun
      exact h
    · cases hrun
      exact h.setClass (h _)
  · obtain ⟨⟨c', r'⟩, hget, hp'⟩ := bind_eq_ok.mp hrun
    cases hp'
    exact h.setClass (smMcGetGroupClassLid_keyed (h _) hget)

theorem smMulticastDecommisionGroup_keyed {p p' : McPool} {g : McGroup} (h : PoolKeyed p)
    (hrun : smMulticastDecommisionGroup p g = .ok p') : PoolKeyed p' := by
  simp only [smMulticastDecommisionGroup] at hrun
  split at hrun
  · cases hrun
    exact h
  · split at hrun
    · cases hrun
    · rename_i l hget
      split at hrun
      · cases hrun
        exact h
      · obtain ⟨c', hrel, hp'⟩ := bind_eq_ok.mp hrun
        cases hp'
        exact h.setClass (releaseLid_keyed (h _) (AssocMap.mem_of_lookup hget) hrel)

end Keys

/-! ## Which table holds an MLID -/

def InTable (p : McPool) (ref : ClassRef) (key : LidClassKey) (lid : Nat) : Prop :=
  ∃ l, (key, l) ∈ (p.groupClass ref).usageMap ∧ l.holdsLid lid = true

def TablesApart (p : McPool) : Prop :=
  ∀ ref key ref' key' lid, InTable p ref key lid → InTable p ref' key' lid →
    ref = ref' ∧ key = key'

theorem holdsLid_iff {l : LidClass} {cnt : Nat → Nat} (h : l.Tracks cnt) (lid : Nat) :
    l.holdsLid lid = true ↔ 0 < cnt lid := by
  unfold LidClass.holdsLid
  rw [List.any_eq_true]
  constructor
  · intro hany
    obtain ⟨j, hj, hlid⟩ := hany
    rw [← of_decide_eq_true hlid]
    exact h.holds.positive j (List.mem_range.mp hj)
  · intro hpos
    obtain ⟨j, hj, hlid⟩ := h.holds.covers lid hpos
    exact ⟨j, List.mem_range.mpr hj, decide_eq_true hlid⟩

section Tables

variable {p p' : McPool} {groups : List McGroup}

theorem TableInv.inTable_iff (h : TableInv p groups) (ref : ClassRef) (key : LidClassKey)
    (lid : Nat) : InTable p ref key lid ↔
      (p.groupClass ref).maximumLids ≠ 0 ∧ 0 < carriers p groups ref key lid := by
  have hclass := h.classes ref
  constructor
  · intro hin
    obtain ⟨l, hl, hlid⟩ := hin
    constructor
    · intro hmax
      rw [hclass.unshared hmax] at hl
      exact absurd hl List.not_mem_nil
    · exact (holdsLid_iff (hclass.tracks key l hl) lid).mp hlid
  · intro hpos
    obtain ⟨⟨key', l⟩, hl, hkey⟩ := List.mem_map.mp (hclass.known hpos.1 key lid hpos.2)
    obtain rfl : key' = key := hkey
    exact ⟨l, hl, (holdsLid_iff (hclass.tracks key' l hl) lid).mpr hpos.2⟩

theorem findMcGroupClass_cases (p : McPool) (gid : IbGid) : findMcGroupClass p gid = .default ∨
    ∃ i, i < p.numMcGroupClasses ∧ findMcGroupClass p gid = .entry i := by
  unfold findMcGroupClass
  split
  · rename_i i hfind
    exact .inr ⟨i, List.mem_range.mp (List.mem_of_find?_eq_some hfind), rfl⟩
  · exact .inl rfl

theorem TableInv.inTable_ref (h : TableInv p groups) {ref : ClassRef} {key : LidClassKey}
    {lid : Nat} (hin : InTable p ref key lid) :
    ref = .default ∨ ∃ i, i < p.numMcGroupClasses ∧ ref = .entry i := by
  obtain ⟨g, _, hprop⟩ := List.countP_pos_iff.mp ((h.inTable_iff ref key lid).mp hin).2
  rw [← (of_decide_eq_true hprop).1]
  exact findMcGroupClass_cases p g.mGid

theorem carriers_cons_pos {g : McGroup} {ref : ClassRef} {key : LidClassKey} {lid : Nat} :
    0 < carriers p (g :: groups) ref key lid ↔
      (findMcGroupClass p g.mGid = ref ∧ groupKey g = key ∧ g.mLid = lid) ∨
        0 < carriers p groups ref key lid := by
  simp only [carriers, List.countP_pos_iff, List.mem_cons, decide_eq_true_eq]
  constructor
  · intro h
    obtain ⟨g', rfl | hmem, hprop⟩ := h
    · exact .inl hprop
    · exact .inr ⟨g', hmem, hprop⟩
  · intro h
    rcases h with hprop | ⟨g', hmem, hprop⟩
    · exact ⟨g, .inl rfl, hprop⟩
    · exact ⟨g', .inr hmem, hprop⟩

theorem TablesApart.grow (hapart : TablesApart p) (h : TableInv p groups) {g : McGroup}
    (h' : TableInv p' (g :: groups)) (hsetup : SameSetup p p')
    (hown : (p.groupClass (findMcGroupClass p g.mGid)).maximumLids ≠ 0 → ∀ ref key,
      InTable p ref key g.mLid → ref = findMcGroupClass p g.mGid ∧ key = groupKey g) :
    TablesApart p' := by
  have hcases : ∀ {ref key lid}, InTable p' ref key lid →
      (p.groupClass ref).maximumLids ≠ 0 ∧
        ((findMcGroupClass p g.mGid = ref ∧ groupKey g = key ∧ g.mLid = lid) ∨
          InTable p ref key lid) := by
    intro ref key lid hin
    obtain ⟨hmax, hpos⟩ := (h'.inTable_iff ref key lid).mp hin
    rw [(hsetup.config ref).maximumLids] at hmax
    rw [carriers_congr hsetup.find, carriers_cons_pos] at hpos
    exact ⟨hmax, hpos.imp_right fun hold => (h.inTable_iff ref key lid).mpr ⟨hmax, hold⟩⟩
  intro ref key ref' key' lid hin hin'
  obtain ⟨hmax, hnew | hold⟩ := hcases hin
  · obtain ⟨rfl, rfl, rfl⟩ := hnew
    obtain ⟨_, hnew' | hold'⟩ := hcases hin'
    · exact ⟨hnew'.1, hnew'.2.1⟩
    · have hsame := hown hmax _ _ hold'
      exact ⟨hsame.1.symm, hsame.2.symm⟩
  · obtain ⟨hmax', hnew' | hold'⟩ := hcases hin'
    · obtain ⟨rfl, rfl, rfl⟩ := hnew'
      exact hown hmax' _ _ hold
    · exact hapart _ _ _ _ _ hold hold'

theorem TablesApart.shrink (hapart : TablesApart p) (h : TableInv p groups)
    {groups' : List McGroup} (h' : TableInv p' groups') (hsetup : SameSetup p p')
    (hsub : groups'.Sublist groups) : TablesApart p' := by
  have hold : ∀ {ref key lid}, InTable p' ref key lid → InTable p ref key lid := by
    intro ref key lid hin
    obtain ⟨hmax, hpos⟩ := (h'.inTable_iff ref key lid).mp hin
    rw [(hsetup.config ref).maximumLids] at hmax
    rw [carriers_congr hsetup.find] at hpos
    exact (h.inTable_iff ref key lid).mpr ⟨hmax, Nat.lt_of_lt_of_le hpos (hsub.countP_le)⟩
  exact fun _ _ _ _ _ hin hin' => hapart _ _ _ _ _ (hold hin) (hold hin')

end Tables

/-! ## The consistency check -/

def OwnTable (p : McPool) (g : McGroup) (ref : ClassRef) (key : LidClassKey) : Prop :=
  ref = findMcGroupClass p g.mGid ∧ key = groupKey g

def checkSync (p : McPool) (g : McGroup) : Except VStatus Unit :=
  smMulticastCheckSyncConsistancy p (findMcGroupClass p g.mGid) g.pKey g.mtu g.rate g.mLid

def addedForGroup (l : LidClass) (g : McGroup) : Bool := l.addedFor g.pKey g.mtu g.rate

section Check

variable {p : McPool} {groups : List McGroup} {g : McGroup}

theorem checkSync_eq_reject : checkSync p g = .error .reject ↔
    (∃ i, i < p.numMcGroupClasses ∧ ∃ key l, (key, l) ∈ (p.groupClass (.entry i)).usageMap ∧
      ¬(findMcGroupClass p g.mGid = .entry i ∧ addedForGroup l g = true) ∧
        l.holdsLid g.mLid = true) ∨
    ∃ key l, (key, l) ∈ (p.groupClass .default).usageMap ∧ ¬addedForGroup l g = true ∧
      l.holdsLid g.mLid = true := by
  unfold checkSync smMulticastCheckSyncConsistancy addedForGroup
  simp only [ite_eq_left_iff, reduceCtorEq, imp_false, not_not, Bool.not_eq_true,
    Bool.or_eq_true, List.any_eq_true, List.mem_range, Prod.exists, Bool.and_eq_true,
    Bool.not_eq_true', Bool.and_eq_false_imp, decide_eq_true_eq, not_and]

theorem checkSync_cases : checkSync p g = .error .reject ∨ checkSync p g = .ok () := by
  simp only [checkSync, smMulticastCheckSyncConsistancy]
  split
  · exact .inl rfl
  · exact .inr rfl

theorem Keyed.eq_groupKey {m : List (LidClassKey × LidClass)} (h : Keyed m) {key : LidClassKey}
    {l : LidClass} (hl : (key, l) ∈ m) (hadded : addedForGroup l g = true) :
    key = groupKey g := by
  simp only [addedForGroup, LidClass.addedFor, Bool.and_eq_true, decide_eq_true_eq] at hadded
  rw [h key l hl, hadded.1.1, hadded.1.2, hadded.2, groupKey]

theorem checkSync_ok (h : TableInv p groups) (hkeyed : PoolKeyed p) (hok : checkSync p g = .ok ())
    {ref : ClassRef} {key : LidClassKey} (hin : InTable p ref key g.mLid) :
    key = groupKey g ∧ (ref = findMcGroupClass p g.mGid ∨ ref = .default ∧
      ∃ l, (key, l) ∈ (p.groupClass .default).usageMap ∧ addedForGroup l g = true ∧
        l.holdsLid g.mLid = true) := by
  have hnot : ¬checkSync p g = .error .reject := by
    rw [hok]
    exact fun heq => nomatch heq
  rw [checkSync_eq_reject, not_or] at hnot
  have href := h.inTable_ref hin
  obtain ⟨l, hl, hlid⟩ := hin
  rcases href with rfl | ⟨i, hi, rfl⟩
  · have hadded : addedForGroup l g = true :=
      Classical.byContradiction fun hno => hnot.2 ⟨key, l, hl, hno, hlid⟩
    exact ⟨(hkeyed .default).eq_groupKey hl hadded, .inr ⟨rfl, l, hl, hadded, hlid⟩⟩
  · have hskip : findMcGroupClass p g.mGid = .entry i ∧ addedForGroup l g = true :=
      Classical.byContradiction fun hno => hnot.1 ⟨i, hi, key, l, hl, hno, hlid⟩
    exact ⟨(hkeyed (.entry i)).eq_groupKey hl hskip.2, .inl hskip.1.symm⟩

theorem checkSync_reject (hrej : checkSync p g = .error .reject) :
    ∃ ref key l, (key, l) ∈ (p.groupClass ref).usageMap ∧ l.holdsLid g.mLid = true ∧
      ¬(ref = findMcGroupClass p g.mGid ∧ addedForGroup l g = true) := by
  rcases checkSync_eq_reject.mp hrej with ⟨i, _, key, l, hl, hno, hlid⟩ | ⟨key, l, hl, hno, hlid⟩
  · exact ⟨.entry i, key, l, hl, hlid, fun hown => hno ⟨hown.1.symm, hown.2⟩⟩
  · exact ⟨.default, key, l, hl, hlid, fun hown => hno hown.2⟩

theorem checkSync_own {ref : ClassRef}
    (href : ref = .default ∨ ∃ i, i < p.numMcGroupClasses ∧ ref = .entry i) {key : LidClassKey}
    {l : LidClass} (hl : (key, l) ∈ (p.groupClass ref).usageMap)
    (hlid : l.holdsLid g.mLid = true) (hno : ¬addedForGroup l g = true) :
    checkSync p g = .error .reject := by
  rw [checkSync_eq_reject]
  rcases href with rfl | ⟨i, hi, rfl⟩
  · exact .inr ⟨key, l, hl, hno, hlid⟩
  · exact .inl ⟨i, hi, key, l, hl, fun hskip => hno hskip.2, hlid⟩

end Check

/-! ## Taking the MLID that was sent -/

/-- `sm_mc_get_group_class_lid` for an MLID by number: a new one is added while there is budget,
and one that the lid class has is shared. -/
theorem smMcGetGroupClassLid_requested (tcap : MlidTableCap) (groups : List McGroup)
    {c : McGroupClass} {cnt : LidClassKey → Nat → Nat} (h : ClassInv c cnt)
    (hmax : c.maximumLids ≠ 0) {pKey mtu rate lid : Nat} (hlid : lid ≠ 0)
    (hcount : cnt (lidClassKey pKey mtu rate) lid < 0xFFFF) :
    (∃ c', smMcGetGroupClassLid tcap groups c pKey mtu rate lid = .ok (c', .ok lid) ∧
      SameConfig c c' ∧ ClassInv c' (oneMore cnt (lidClassKey pKey mtu rate) lid) ∧
      (c.currentLids < c.maximumLids ∨ 0 < cnt (lidClassKey pKey mtu rate) lid)) ∨
    (smMcGetGroupClassLid tcap groups c pKey mtu rate lid = .ok (c, .error .noResource) ∧
      c.maximumLids ≤ c.currentLids) := by
  have hshare : ∀ {c₁ : McGroupClass} {l : LidClass} {i : Nat}, ClassInv c₁ cnt →
      c₁.maximumLids ≠ 0 → (lidClassKey pKey mtu rate, l) ∈ c₁.usageMap →
      findLid l lid = some i → ∃ l', bumpUsage l i = .ok l' ∧
        ClassInv (c₁.setLidClass (lidClassKey pKey mtu rate) l')
          (oneMore cnt (lidClassKey pKey mtu rate) lid) ∧
        0 < cnt (lidClassKey pKey mtu rate) lid := by
    intro c₁ l i hinv hmax₁ hmem hfind
    obtain ⟨hi, rfl⟩ := findLid_some hfind
    have htr := hinv.tracks _ _ hmem
    obtain ⟨l', hl', htr', hsame⟩ := bumpUsage_spec htr hi (by rwa [htr.holds.counts i hi])
    exact ⟨l', hl', hinv.write hmax₁ hmem htr' (by omega) (hinv.budget hmax₁),
      htr.holds.positive i hi⟩
  unfold smMcGetGroupClassLid
  by_cases hroom : c.currentLids < c.maximumLids
  · obtain ⟨hinv, hmem, hcfg, hcur⟩ := h.getOrAdd hmax pKey mtu rate
    simp only [if_pos hroom, if_neg hlid]
    generalize getOrAddLidClass c pKey mtu rate = cl at hinv hmem hcfg hcur ⊢
    have hmax' : cl.1.maximumLids ≠ 0 := by rw [hcfg.maximumLids]; exact hmax
    cases hfind : findLid cl.2 lid with
    | some index =>
      obtain ⟨l', hl', hinv', _⟩ := hshare hinv hmax' hmem hfind
      refine .inl ⟨cl.1.setLidClass (lidClassKey pKey mtu rate) l', ?_,
        ⟨hcfg.maximumLids, hcfg.mask, hcfg.value⟩, hinv', .inl hroom⟩
      simp [hl', Bind.bind, Except.bind, Pure.pure, Except.pure]
    | none =>
      have hzero : cnt (lidClassKey pKey mtu rate) lid = 0 := by
        by_contra hne
        obtain ⟨i, hi⟩ := findLid_eq_some_of_pos (hinv.tracks _ _ hmem) (Nat.pos_of_ne_zero hne)
        rw [hfind] at hi
        cases hi
      have hle := hinv.lidsUsed_le hmax' hmem
      have hlt := hinv.maximum_lt
      have hmaxeq := hcfg.maximumLids
      obtain ⟨l', hl', htr, hused⟩ := appendLid_spec (c := cl.1)
        (hinv.tracks _ _ hmem) hzero (by omega) hlt false
      have hinc : inc16 cl.1.currentLids = cl.1.currentLids + 1 := inc16_of_lt (by omega)
      refine .inl ⟨cl.1.charge (lidClassKey pKey mtu rate) l', ?_,
        ⟨hcfg.maximumLids, hcfg.mask, hcfg.value⟩, ?_, .inl hroom⟩
      · simp [hl', Bind.bind, Except.bind, Pure.pure, Except.pure]
      · rw [McGroupClass.charge, oneMore, hzero]
        exact hinv.write hmax' hmem htr (by omega) (by omega)
  · simp only [if_neg hroom, if_neg hlid]
    cases hget : getLidClass c pKey mtu rate with
    | none => exact .inr ⟨rfl, by omega⟩
    | some l =>
      cases hfind : findLid l lid with
      | none => exact .inr ⟨by simp [hfind], by omega⟩
      | some index =>
        obtain ⟨l', hl', hinv', hpos⟩ :=
          hshare h hmax (AssocMap.mem_of_lookup hget) hfind
        refine .inl ⟨c.setLidClass (lidClassKey pKey mtu rate) l', ?_, ⟨rfl, rfl, rfl⟩,
          hinv', .inr hpos⟩
        simp [hfind, hl', Bind.bind, Except.bind, Pure.pure, Except.pure]

def syncLid (tcap : MlidTableCap) (s : PoolState) (g : McGroup) :
    Except Fault (McPool × Except VStatus Unit) :=
  smMulticastSyncLid tcap s.pool s.groups g.mGid g.pKey g.mtu g.rate g.mLid

/-- A synchronization whose check succeeds takes the MLID, if the group class keeps no tables,
has budget left, or has the MLID in the group's table. -/
theorem syncLid_checked (tcap : MlidTableCap) {s : PoolState} (h : TableInv s.pool s.groups)
    (g : SyncedGroup) (hfew : s.groups.length < 0xFFFF)
    (hok : checkSync s.pool g.group = .ok ()) :
    (∃ p', syncLid tcap s g.group = .ok (p', .ok ()) ∧ SameSetup s.pool p' ∧
      TableInv p' (g.group :: s.groups) ∧
      ((assignClass s g.group).maximumLids = 0 ∨
        (assignClass s g.group).currentLids < (assignClass s g.group).maximumLids ∨
        InTable s.pool (findMcGroupClass s.pool g.group.mGid) (groupKey g.group)
          g.group.mLid)) ∨
    (∃ p', syncLid tcap s g.group = .ok (p', .error .noResource) ∧ SameSetup s.pool p' ∧
      TableInv p' s.groups ∧
      (assignClass s g.group).maximumLids ≤ (assignClass s g.group).currentLids) := by
  have hclass := h.classes (findMcGroupClass s.pool g.group.mGid)
  unfold checkSync at hok
  unfold syncLid assignClass
  simp only [smMulticastSyncLid, hok]
  by_cases hmax : (s.pool.groupClass (findMcGroupClass s.pool g.group.mGid)).maximumLids = 0
  · simp only [if_pos hmax]
    have hcfg : SameConfig (s.pool.groupClass (findMcGroupClass s.pool g.group.mGid))
        { s.pool.groupClass (findMcGroupClass s.pool g.group.mGid) with
          currentLids := inc16
            (s.pool.groupClass (findMcGroupClass s.pool g.group.mGid)).currentLids } :=
      ⟨rfl, rfl, rfl⟩
    refine .inl ⟨_, rfl, sameSetup_setClass _ hcfg, ?_, .inl hmax⟩
    apply h.update hcfg (hclass.unbudgeted hmax _ _)
    · exact fun r hr => carriers_cons_other _ _ _ hr
    · exact h.unmarked_cons g.mLid_ne_marker
  · simp only [if_neg hmax]
    have hcount : carriers s.pool s.groups (findMcGroupClass s.pool g.group.mGid)
        (lidClassKey g.group.pKey g.group.mtu g.group.rate) g.group.mLid < 0xFFFF :=
      Nat.lt_of_le_of_lt List.countP_le_length hfew
    rcases smMcGetGroupClassLid_requested tcap s.groups hclass hmax
        (Nat.pos_iff_ne_zero.mp g.mLid_pos) hcount with
      ⟨c', hget, hcfg, hinv, hhow⟩ | ⟨hget, hfull⟩
    · refine .inl ⟨s.pool.setClass _ c', ?_, sameSetup_setClass _ hcfg, ?_, ?_⟩
      · simp [hget, Bind.bind, Except.bind, Pure.pure, Except.pure, Except.map]
      · apply h.update hcfg
        · rw [carriers_cons_self]
          exact hinv
        · exact fun r hr => carriers_cons_other _ _ _ hr
        · exact h.unmarked_cons g.mLid_ne_marker
      · exact .inr (hhow.imp_right fun hpos => (h.inTable_iff _ _ _).mpr ⟨hmax, hpos⟩)
    · have hcfg := SameConfig.refl (s.pool.groupClass (findMcGroupClass s.pool g.group.mGid))
      refine .inr ⟨s.pool.setClass _ _, ?_, sameSetup_setClass _ hcfg, ?_, hfull⟩
      · simp [hget, Bind.bind, Except.bind, Pure.pure, Except.pure, Except.map]
      · exact h.update hcfg hclass (fun _ _ => rfl) h.unmarked

theorem syncLid_rejected (tcap : MlidTableCap) {s : PoolState} {g : McGroup}
    (hrej : checkSync s.pool g = .error .reject) :
    syncLid tcap s g = .ok (s.pool, .error .reject) := by
  unfold checkSync at hrej
  simp only [syncLid, smMulticastSyncLid, hrej]

/-!
## Runs of a standby

A standby assigns and gives back MLIDs like any SM and takes over those of the master.  A
synchronization does what it should when the group's own lid class, if it has the MLID, was added
for the group's very P_Key, MTU and rate, and the default class does not have the MLID for these
in the place of the group's own class.
-/

/-! ### Steps -/

inductive SyncOp where
  | pool (op : PoolOp)
  | sync (g : SyncedGroup)

/-- One call on a standby; a group that is synchronized is then created. -/
def syncStep (tcap : MlidTableCap) (s : PoolState) :
    SyncOp → Except Fault (PoolState × Option (Except VStatus Nat))
  | .pool op => poolStep tcap s op
  | .sync g => do
      let (pool, r) ← syncLid tcap s g.group
      match r with
      | .ok () => pure (⟨pool, g.group :: s.groups⟩, some (.ok g.group.mLid))
      | .error e => pure (⟨pool, s.groups⟩, some (.error e))

def OnlyHolder (s : PoolState) (g : McGroup) : Prop :=
  InTable s.pool (findMcGroupClass s.pool g.mGid) (groupKey g) g.mLid ∧
    ∀ ref key, InTable s.pool ref key g.mLid → OwnTable s.pool g ref key

/-- A synchronization that succeeds leaves no MLID in two tables, and one whose MLID only the
group's own table holds is not rejected. -/
def SyncMeets (tcap : MlidTableCap) (s : PoolState) (g : SyncedGroup) : Prop :=
  ∃ p' r, syncLid tcap s g.group = .ok (p', r) ∧ (r = .ok () → TablesApart p') ∧
    (OnlyHolder s g.group → r ≠ .error .reject)

/-- Neither is the MLID in the group's own table under other arguments, nor, while the group's
own class could take it, in the default class under the group's. -/
structure SyncOk (s : PoolState) (g : McGroup) : Prop where
  own : ∀ l, getLidClass (assignClass s g) g.pKey g.mtu g.rate = some l →
    l.holdsLid g.mLid = true → addedForGroup l g = true
  default : findMcGroupClass s.pool g.mGid ≠ .default →
    (assignClass s g).currentLids < (assignClass s g).maximumLids →
    ∀ key l, (key, l) ∈ (s.pool.groupClass .default).usageMap → addedForGroup l g = true →
      l.holdsLid g.mLid = false

/-- The groups fit into a counter, and a synchronization is one that goes right. -/
def SyncStepOk (s : PoolState) (op : SyncOp) : Prop :=
  s.groups.length < 0xFFFF ∧ ∀ g, op = .sync g → SyncOk s g.group

/-! ### What a step keeps -/

structure SyncInv (s : PoolState) : Prop where
  tables : TableInv s.pool s.groups
  keyed : PoolKeyed s.pool
  apart : TablesApart s.pool

variable {tcap : MlidTableCap} {s s' : PoolState}

theorem smMulticastSyncLid_keyed {p p' : McPool} {groups : List McGroup} {mGid : IbGid}
    {pKey mtu rate lid : Nat} {r : Except VStatus Unit} (h : PoolKeyed p)
    (hrun : smMulticastSyncLid tcap p groups mGid pKey mtu rate lid = .ok (p', r)) :
    PoolKeyed p' := by
  simp only [smMulticastSyncLid] at hrun
  split at hrun
  · cases hrun
    exact h
  · split at hrun
    · cases hrun
      exact h.setClass (h _)
    · obtain ⟨⟨c', r'⟩, hget, hp'⟩ := bind_eq_ok.mp hrun
      cases hp'
      exact h.setClass (smMcGetGroupClassLid_keyed (h _) hget)

theorem SyncInv.own_table (h : SyncInv s) {g : McGroup} (hok : SyncOk s g)
    (hcheck : checkSync s.pool g = .ok ())
    (hroom : (assignClass s g).maximumLids = 0 ∨
      (assignClass s g).currentLids < (assignClass s g).maximumLids ∨
      InTable s.pool (findMcGroupClass s.pool g.mGid) (groupKey g) g.mLid)
    (hmax : (assignClass s g).maximumLids ≠ 0) {ref : ClassRef} {key : LidClassKey}
    (hin : InTable s.pool ref key g.mLid) : OwnTable s.pool g ref key := by
  rcases hroom with hzero | hroom | hown
  · exact absurd hzero hmax
  · obtain ⟨hkey, href | ⟨rfl, l, hl, hadded, hlid⟩⟩ := checkSync_ok h.tables h.keyed hcheck hin
    · exact ⟨href, hkey⟩
    · by_cases hdefault : findMcGroupClass s.pool g.mGid = .default
      · exact ⟨hdefault.symm, hkey⟩
      · have hno := hok.default hdefault hroom key l hl hadded
        rw [hno] at hlid
        cases hlid
  · exact h.apart _ _ _ _ _ hin hown

theorem SyncInv.sync (h : SyncInv s) {g : SyncedGroup} (hok : SyncOk s g.group)
    (hfew : s.groups.length < 0xFFFF) {p' : McPool} {r : Except VStatus Unit}
    (hrun : syncLid tcap s g.group = .ok (p', r)) :
    (r = .ok () → SyncInv ⟨p', g.group :: s.groups⟩) ∧
      (∀ e, r = .error e → SyncInv ⟨p', s.groups⟩) := by
  have hkeyed : PoolKeyed p' := smMulticastSyncLid_keyed h.keyed hrun
  rcases checkSync_cases (p := s.pool) (g := g.group) with hrej | hcheck
  · rw [syncLid_rejected tcap hrej] at hrun
    cases hrun
    exact ⟨(fun heq => nomatch heq), fun _ _ => h⟩
  · rcases syncLid_checked tcap h.tables g hfew hcheck with
      ⟨p₁, hrun₁, hsetup, htables, hroom⟩ | ⟨p₁, hrun₁, hsetup, htables, _⟩
    · rw [hrun₁] at hrun
      cases hrun
      refine ⟨fun _ => ⟨htables, hkeyed, ?_⟩, (fun _ heq => nomatch heq)⟩
      apply h.apart.grow h.tables htables hsetup
      intro hmax ref key hin
      exact h.own_table hok hcheck hroom hmax hin
    · rw [hrun₁] at hrun
      cases hrun
      refine ⟨(fun heq => nomatch heq), fun _ _ => ⟨htables, hkeyed, ?_⟩⟩
      exact h.apart.shrink h.tables htables hsetup (List.Sublist.refl _)

theorem SyncInv.poolStep (h : SyncInv s) (hfew : s.groups.length < 0xFFFF) {op : PoolOp}
    {reply : Option (Except VStatus Nat)} (hstep : poolStep tcap s op = .ok (s', reply)) :
    SyncInv s' := by
  cases op with
  | assign g =>
    obtain ⟨⟨p', r⟩, hrun, hs'⟩ := bind_eq_ok.mp hstep
    have hkeyed : PoolKeyed p' := smMulticastAssignLid_keyed h.keyed hrun
    have hshare := h.tables.shareOk_of_answered hfew hrun
    rcases smMulticastAssignLid_tables tcap h.tables hshare with
      ⟨p₁, lid, hrun₁, hsetup, horigin, _, htables⟩ | ⟨p₁, e, hrun₁, hsetup, htables, _⟩
    · rw [hrun₁] at hrun
      cases hrun
      cases hs'
      have htables' := htables { g with mLid := lid } rfl rfl fun _ => rfl
      refine ⟨htables', hkeyed, ?_⟩
      apply h.apart.grow h.tables htables' hsetup
      intro hmax ref key hin
      rcases horigin with hfree | hpos
      · have hunused := smMcFindUnusedLid_unused hfree
        have hpos := ((h.tables.inTable_iff ref key lid).mp hin).2
        rw [carriers_of_unused hunused] at hpos
        exact absurd hpos (Nat.lt_irrefl 0)
      · exact h.apart _ _ _ _ _ hin ((h.tables.inTable_iff _ _ _).mpr ⟨hmax, hpos⟩)
    · rw [hrun₁] at hrun
      cases hrun
      cases hs'
      exact ⟨htables, hkeyed, h.apart.shrink h.tables htables hsetup (List.Sublist.refl _)⟩
  | decommision pos =>
    simp only [Multicast.poolStep] at hstep
    split at hstep
    · cases hstep
      exact h
    · rename_i g hget
      obtain ⟨p', hrun, hs'⟩ := bind_eq_ok.mp hstep
      cases hs'
      obtain ⟨hlt, hg⟩ := List.getElem?_eq_some_iff.mp hget
      have hperm : s.groups.Perm (g :: s.groups.eraseIdx pos) := by
        rw [← hg]
        exact (List.getElem_cons_eraseIdx_perm hlt).symm
      obtain ⟨p₁, hrun₁, hsetup, htables⟩ :=
        smMulticastDecommisionGroup_tables h.tables hperm
      have hkeyed : PoolKeyed p' := smMulticastDecommisionGroup_keyed h.keyed hrun
      rw [hrun₁] at hrun
      cases hrun
      exact ⟨htables, hkeyed,
        h.apart.shrink h.tables htables hsetup (List.eraseIdx_sublist _ _)⟩

theorem SyncInv.step (h : SyncInv s) {op : SyncOp} (hok : SyncStepOk s op)
    {reply : Option (Except VStatus Nat)} (hstep : syncStep tcap s op = .ok (s', reply)) :
    SyncInv s' := by
  cases op with
  | pool op => exact h.poolStep hok.1 hstep
  | sync g =>
    obtain ⟨⟨p', r⟩, hrun, hs'⟩ := bind_eq_ok.mp hstep
    have hinv := h.sync (hok.2 g rfl) hok.1 hrun
    cases r with
    | ok u =>
      cases hs'
      exact hinv.1 rfl
    | error e =>
      cases hs'
      exact hinv.2 e rfl

theorem syncInv_initial (cfg : McPoolConfig) : SyncInv ⟨cfg.initial, []⟩ := by
  have htables : TableInv cfg.initial [] := (poolInv_initial sixteenLids cfg).tables
  refine ⟨htables, fun _ _ _ hl => absurd hl List.not_mem_nil, ?_⟩
  intro ref key _ _ _ hin
  obtain ⟨l, hl, _⟩ := hin
  exact absurd hl List.not_mem_nil

/-! ### When a synchronization goes right -/

theorem SyncInv.lookup (h : SyncInv s) {ref : ClassRef} {key : LidClassKey} {l l' : LidClass}
    (hl : (key, l) ∈ (s.pool.groupClass ref).usageMap)
    (hl' : (key, l') ∈ (s.pool.groupClass ref).usageMap) : l = l' := by
  have hkeys := (h.tables.classes ref).keys
  have hlook := AssocMap.lookup_of_mem hkeys hl
  rw [AssocMap.lookup_of_mem hkeys hl'] at hlook
  exact (Option.some.inj hlook).symm

theorem SyncInv.sync_meets (h : SyncInv s) {g : SyncedGroup} (hfew : s.groups.length < 0xFFFF)
    (hok : SyncOk s g.group) : SyncMeets tcap s g := by
  rcases checkSync_cases (p := s.pool) (g := g.group) with hrej | hcheck
  · refine ⟨s.pool, .error .reject, syncLid_rejected tcap hrej, (fun heq => nomatch heq), ?_⟩
    intro honly _
    -- the lid class that failed the check is the group's own, which the check skips
    obtain ⟨ref, key, l, hl, hlid, hno⟩ := checkSync_reject hrej
    obtain ⟨rfl, rfl⟩ := honly.2 ref key ⟨l, hl, hlid⟩
    have hget : getLidClass (assignClass s g.group) g.group.pKey g.group.mtu g.group.rate =
        some l := AssocMap.lookup_of_mem (h.tables.classes _).keys hl
    exact hno ⟨rfl, hok.own l hget hlid⟩
  · rcases syncLid_checked tcap h.tables g hfew hcheck with
      ⟨p', hrun, _⟩ | ⟨p', hrun, _⟩
    · exact ⟨p', .ok (), hrun, fun _ => ((h.sync hok hfew hrun).1 rfl).apart,
        (fun _ heq => nomatch heq)⟩
    · exact ⟨p', .error .noResource, hrun, (fun heq => nomatch heq), (fun _ heq => nomatch heq)⟩

theorem SyncInv.own_of_meets (h : SyncInv s) {g : SyncedGroup} (hmeets : SyncMeets tcap s g)
    {l : LidClass} (hget : getLidClass (assignClass s g.group) g.group.pKey g.group.mtu
      g.group.rate = some l) (hlid : l.holdsLid g.group.mLid = true) :
    addedForGroup l g.group = true := by
  by_contra hno
  have hl := AssocMap.mem_of_lookup hget
  have hin : InTable s.pool (findMcGroupClass s.pool g.group.mGid) (groupKey g.group)
      g.group.mLid := ⟨l, hl, hlid⟩
  have hrej := checkSync_own (findMcGroupClass_cases s.pool g.group.mGid) hl hlid hno
  obtain ⟨p', r, hrun, _, hanswer⟩ := hmeets
  rw [syncLid_rejected tcap hrej] at hrun
  cases hrun
  apply hanswer _ rfl
  exact ⟨hin, fun ref key hin' => h.apart _ _ _ _ _ hin' hin⟩

theorem SyncInv.default_of_meets (h : SyncInv s) {g : SyncedGroup}
    (hfew : s.groups.length < 0xFFFF) (hmeets : SyncMeets tcap s g)
    (href : findMcGroupClass s.pool g.group.mGid ≠ .default)
    (hroom : (assignClass s g.group).currentLids < (assignClass s g.group).maximumLids)
    {key : LidClassKey} {l : LidClass} (hl : (key, l) ∈ (s.pool.groupClass .default).usageMap)
    (hadded : addedForGroup l g.group = true) : l.holdsLid g.group.mLid = false := by
  by_contra hlid
  rw [Bool.not_eq_false] at hlid
  have hin : InTable s.pool .default key g.group.mLid := ⟨l, hl, hlid⟩
  -- the only table with the MLID is the one that the check skips
  have hcheck : checkSync s.pool g.group = .ok () := by
    rcases checkSync_cases (p := s.pool) (g := g.group) with hrej | hcheck
    · rcases checkSync_eq_reject.mp hrej with ⟨i, _, key', l', hl', _, hlid'⟩ |
        ⟨key', l', hl', hno, hlid'⟩
      · exact nomatch (h.apart _ _ _ _ _ hin ⟨l', hl', hlid'⟩).1
      · obtain rfl := (h.apart _ _ _ _ _ hin ⟨l', hl', hlid'⟩).2
        rw [h.lookup hl' hl] at hno
        exact absurd hadded hno
    · exact hcheck
  obtain ⟨p', r, hrun, happart, _⟩ := hmeets
  rcases syncLid_checked tcap h.tables g hfew hcheck with
    ⟨p₁, hrun₁, hsetup, htables, _⟩ | ⟨p₁, _, _, _, hfull⟩
  · rw [hrun₁] at hrun
    cases hrun
    have hgroup : InTable p' (findMcGroupClass s.pool g.group.mGid) (groupKey g.group)
        g.group.mLid := by
      rw [htables.inTable_iff, (hsetup.config _).maximumLids, carriers_congr hsetup.find,
        carriers_cons_pos]
      exact ⟨Nat.ne_of_gt (Nat.zero_lt_of_lt hroom), .inl ⟨rfl, rfl, rfl⟩⟩
    have hdefault : InTable p' .default key g.group.mLid := by
      have hold := (h.tables.inTable_iff _ _ _).mp hin
      rw [htables.inTable_iff, (hsetup.config _).maximumLids, carriers_congr hsetup.find,
        carriers_cons_pos]
      exact ⟨hold.1, .inr hold.2⟩
    exact href (happart rfl _ _ _ _ _ hgroup hdefault).1
  · omega

theorem SyncInv.sync_meets_iff_ok (h : SyncInv s) {g : SyncedGroup}
    (hfew : s.groups.length < 0xFFFF) : SyncMeets tcap s g ↔ SyncOk s g.group := by
  constructor
  · intro hmeets
    constructor
    · exact fun l hget hlid => h.own_of_meets hmeets hget hlid
    · exact fun href hroom key l hl hadded => h.default_of_meets hfew hmeets href hroom hl hadded
  · exact h.sync_meets hfew

/-- In every run whose synchronizations all meet `SyncOk`, a further one does what it should just
when it meets it too. -/
theorem sync_run_meets_iff (tcap : MlidTableCap) (cfg : McPoolConfig) (s : PoolState)
    (g : SyncedGroup) (hreach : Reach (syncStep tcap) SyncStepOk ⟨cfg.initial, []⟩ s)
    (hfew : s.groups.length < 0xFFFF) : SyncMeets tcap s g ↔ SyncOk s g.group := by
  have hinv : SyncInv s :=
    Reach.invariant SyncInv (syncInv_initial cfg)
      (fun _ _ _ _ hs hok hstep => hs.step hok hstep) hreach
  exact hinv.sync_meets_iff_ok hfew

/-- A group of the first P_Key, as the master may send it: with the first MLID, and without the
membership bit. -/
def limitedGroup : SyncedGroup := ⟨{ pKey := 1, mLid := 0xC000 }, by decide, by decide⟩

theorem sync_run_meets_iff_first :
    SyncMeets sixteenLids ⟨oneLidConfig.initial, []⟩ limitedGroup ↔
      SyncOk ⟨oneLidConfig.initial, []⟩ limitedGroup.group :=
  sync_run_meets_iff sixteenLids oneLidConfig _ limitedGroup .start (by decide)

/-- The MLID was assigned to a full member's P_Key; the group with the same P_Key for limited
members is rejected, although its own lid class alone holds the MLID. -/
theorem sync_run_limited : ∃ s,
    Reach (syncStep sixteenLids) (fun _ _ => True) ⟨oneLidConfig.initial, []⟩ s ∧
      ¬SyncMeets sixteenLids s limitedGroup := by
  obtain ⟨s, o, hstep, htest⟩ := exists_of_stepsTo (syncStep sixteenLids)
    ⟨oneLidConfig.initial, []⟩ (.pool (.assign { pKey := 0x8001 }))
    (fun s => s.groups.length = 1 && (getLidClass (s.pool.groupClass .default) 1 0 0).any fun l =>
      s.pool.numMcGroupClasses = 0 && l.holdsLid 0xC000 && !addedForGroup l limitedGroup.group)
    (by decide)
  refine ⟨s, .next .start trivial hstep, ?_⟩
  have hinv : SyncInv s :=
    (syncInv_initial oneLidConfig).step ⟨by decide, fun _ heq => absurd heq (by simp)⟩ hstep
  rw [Bool.and_eq_true, Option.any_eq_true] at htest
  obtain ⟨hlen, l, hget, htest⟩ := htest
  rw [Bool.and_eq_true, Bool.and_eq_true] at htest
  have hnum := of_decide_eq_true htest.1.1
  rw [hinv.sync_meets_iff_ok (by rw [of_decide_eq_true hlen]; decide)]
  intro hok
  have hclass : findMcGroupClass s.pool limitedGroup.group.mGid = .default := by
    unfold findMcGroupClass
    rw [hnum]
    rfl
  have hadded : addedForGroup l limitedGroup.group = true := by
    apply hok.own l _ htest.1.2
    unfold assignClass
    rw [hclass]
    exact hget
  rw [hadded] at htest
  exact absurd htest.2 (by decide)

end OpaFm.Multicast
