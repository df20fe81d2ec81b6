import OpaFm.Lib.Run
import OpaFm.Multicast.Proofs.LidClass

/-!
# Whole runs of the multicast LID pool

The pool is right for a list of groups when every lid class counts, for each of
its MLIDs, the groups that share it, and the budget of a group class is the
number of MLIDs in its lid classes.  `assign` and `decommision` keep that, as
long as an exhausted class is never asked for a lid class that has run empty.
-/

namespace OpaFm.Multicast

open OpaFm.Lib

/-! ## One group class -/

structure ClassInv (c : McGroupClass) (cnt : LidClassKey → Nat → Nat) : Prop where
  maximum_lt : c.maximumLids < 65536
  unshared : c.maximumLids = 0 → c.usageMap = []
  keys : (c.usageMap.map Prod.fst).Nodup
  tracks : ∀ key l, (key, l) ∈ c.usageMap → l.Tracks (cnt key)
  known : c.maximumLids ≠ 0 → ∀ key lid, 0 < cnt key lid → key ∈ c.usageMap.map Prod.fst
  total : c.maximumLids ≠ 0 → c.currentLids = (c.usageMap.map fun e => e.2.lidsUsed).sum
  budget : c.maximumLids ≠ 0 → c.currentLids ≤ c.maximumLids

structure SameConfig (c c' : McGroupClass) : Prop where
  maximumLids : c'.maximumLids = c.maximumLids
  mask : c'.mask = c.mask
  value : c'.value = c.value

theorem SameConfig.refl (c : McGroupClass) : SameConfig c c := ⟨rfl, rfl, rfl⟩

def oneMore (cnt : LidClassKey → Nat → Nat) (key : LidClassKey) (lid : Nat) :
    LidClassKey → Nat → Nat :=
  Function.update cnt key (Function.update (cnt key) lid (cnt key lid + 1))

def oneFewer (cnt : LidClassKey → Nat → Nat) (key : LidClassKey) (lid : Nat) :
    LidClassKey → Nat → Nat :=
  Function.update cnt key (Function.update (cnt key) lid (cnt key lid - 1))

section Class

variable {c : McGroupClass} {cnt : LidClassKey → Nat → Nat}

theorem ClassInv.lidsUsed_le (h : ClassInv c cnt) (hmax : c.maximumLids ≠ 0) {key : LidClassKey}
    {l : LidClass} (hl : (key, l) ∈ c.usageMap) : l.lidsUsed ≤ c.currentLids := by
  rw [h.total hmax]
  exact AssocMap.le_sum_of_mem hl LidClass.lidsUsed

theorem ClassInv.write (h : ClassInv c cnt) (hmax : c.maximumLids ≠ 0) {key : LidClassKey}
    {l l' : LidClass} (hl : (key, l) ∈ c.usageMap) {cnt' : Nat → Nat} (htr : l'.Tracks cnt')
    {used : Nat} (hused : used + l.lidsUsed = c.currentLids + l'.lidsUsed)
    (hbudget : used ≤ c.maximumLids) :
    ClassInv { c.setLidClass key l' with currentLids := used } (Function.update cnt key cnt') := by
  constructor
  · exact h.maximum_lt
  · intro hzero
    exact absurd hzero hmax
  · simpa [McGroupClass.setLidClass] using h.keys
  · intro key' m hm
    rcases AssocMap.mem_set hm with ⟨rfl, rfl⟩ | ⟨hne, hmem⟩
    · rwa [Function.update_self]
    · rw [Function.update_of_ne hne]
      exact h.tracks key' m hmem
  · intro _ key' lid hpos
    simp only [McGroupClass.setLidClass, AssocMap.keys_set]
    by_cases hkey : key' = key
    · rw [hkey]
      exact List.mem_map_of_mem hl
    · rw [Function.update_of_ne hkey] at hpos
      exact h.known hmax key' lid hpos
  · intro _
    have hsum := AssocMap.sum_set h.keys hl l' LidClass.lidsUsed
    have htotal := h.total hmax
    simp only [McGroupClass.setLidClass]
    omega
  · intro _
    exact hbudget

theorem ClassInv.getOrAdd (h : ClassInv c cnt) (hmax : c.maximumLids ≠ 0)
    (pKey mtu rate : Nat) :
    ClassInv (getOrAddLidClass c pKey mtu rate).1 cnt ∧
      (lidClassKey pKey mtu rate, (getOrAddLidClass c pKey mtu rate).2) ∈
        (getOrAddLidClass c pKey mtu rate).1.usageMap ∧
      SameConfig c (getOrAddLidClass c pKey mtu rate).1 ∧
      (getOrAddLidClass c pKey mtu rate).1.currentLids = c.currentLids := by
  unfold getOrAddLidClass
  cases hget : getLidClass c pKey mtu rate with
  | some l => exact ⟨h, AssocMap.mem_of_lookup hget, SameConfig.refl c, rfl⟩
  | none =>
    have hnew : lidClassKey pKey mtu rate ∉ c.usageMap.map Prod.fst :=
      AssocMap.lookup_eq_none.mp hget
    have hzero : cnt (lidClassKey pKey mtu rate) = fun _ => 0 := by
      funext lid
      by_contra hne
      exact hnew (h.known hmax _ lid (Nat.pos_of_ne_zero hne))
    refine ⟨⟨h.maximum_lt, fun hz => absurd hz hmax, ?_, ?_, ?_, ?_, h.budget⟩,
      List.mem_cons_self, ⟨rfl, rfl, rfl⟩, rfl⟩
    · exact List.nodup_cons.mpr ⟨hnew, h.keys⟩
    · intro key l hl
      rcases List.mem_cons.mp hl with heq | hl
      · obtain ⟨rfl, rfl⟩ := Prod.mk.inj heq
        rw [hzero]
        exact tracks_new pKey mtu rate
      · exact h.tracks key l hl
    · intro _ key lid hpos
      exact List.mem_cons_of_mem _ (h.known hmax key lid hpos)
    · intro _
      simp [addLidClass, LidClass.new, h.total hmax]

/-- The step an exhausted class must not be asked for: sharing from a lid class
with nothing in it, or past what its counter holds. -/
def ShareOk (c : McGroupClass) (pKey mtu rate : Nat) : Prop :=
  c.maximumLids ≠ 0 → c.maximumLids ≤ c.currentLids →
    ∀ l, getLidClass c pKey mtu rate = some l → 0 < l.lidsUsed ∧ (l.lids 0).usageCount < 0xFFFF

def Exhausted (c : McGroupClass) (pKey mtu rate : Nat) : Prop :=
  c.maximumLids ≠ 0 ∧ c.maximumLids ≤ c.currentLids ∧
    ∀ l, getLidClass c pKey mtu rate = some l → l.lidsUsed = 0

variable (tcap : MlidTableCap) {groups : List McGroup} {pKey mtu rate : Nat}

theorem smMcGetGroupClassLid_spec (h : ClassInv c cnt) (hmax : c.maximumLids ≠ 0)
    (hok : ShareOk c pKey mtu rate)
    (hfresh : ∀ lid, smMulticastIsLidInUse groups lid = 0 →
      cnt (lidClassKey pKey mtu rate) lid = 0)
    (hmarker : ∀ key, cnt key 0xFFFFFFFF = 0) :
    (∃ c' lid, smMcGetGroupClassLid tcap groups c pKey mtu rate 0 = .ok (c', .ok lid) ∧
      SameConfig c c' ∧ ClassInv c' (oneMore cnt (lidClassKey pKey mtu rate) lid) ∧
      (smMcFindUnusedLid tcap groups = some lid ∨ 0 < cnt (lidClassKey pKey mtu rate) lid) ∧
      ¬ Exhausted c pKey mtu rate) ∨
    (∃ c' e, smMcGetGroupClassLid tcap groups c pKey mtu rate 0 = .ok (c', .error e) ∧
      SameConfig c c' ∧ ClassInv c' cnt ∧ (Exhausted c pKey mtu rate → e = .noResource)) := by
  unfold smMcGetGroupClassLid
  by_cases hroom : c.currentLids < c.maximumLids
  · obtain ⟨hinv, hmem, hcfg, hcur⟩ := h.getOrAdd hmax pKey mtu rate
    have hnot : ¬ Exhausted c pKey mtu rate := fun hex => by have := hex.2.1; omega
    simp only [if_pos hroom, ↓reduceIte]
    generalize getOrAddLidClass c pKey mtu rate = cl at hinv hmem hcfg hcur ⊢
    have hmax' : cl.1.maximumLids ≠ 0 := by rw [hcfg.maximumLids]; exact hmax
    cases hfree : smMcFindUnusedLid tcap groups with
    | none => exact .inr ⟨cl.1, .bad, rfl, hcfg, hinv, fun hex => absurd hex hnot⟩
    | some newLid =>
      have hunused := (firstUnused_some hfree).2.2
      have hzero := hfresh newLid (by simpa using hunused)
      have hle := hinv.lidsUsed_le hmax' hmem
      have hlt := hinv.maximum_lt
      have hmaxeq := hcfg.maximumLids
      obtain ⟨l', hl', htr, hcount⟩ := appendLid_spec (c := cl.1)
        (hinv.tracks _ _ hmem) hzero (by omega) hlt true
      have hinc : inc16 cl.1.currentLids = cl.1.currentLids + 1 := inc16_of_lt (by omega)
      refine .inl ⟨cl.1.charge (lidClassKey pKey mtu rate) l', newLid, ?_, ?_, ?_,
        .inl rfl, hnot⟩
      · simp [hl', Bind.bind, Except.bind, Pure.pure, Except.pure]
      · exact ⟨hcfg.maximumLids, hcfg.mask, hcfg.value⟩
      · rw [McGroupClass.charge, oneMore, hzero]
        exact hinv.write hmax' hmem htr (by omega) (by omega)
  · simp only [if_neg hroom, ↓reduceIte]
    cases hget : getLidClass c pKey mtu rate with
    | none => exact .inr ⟨c, .noResource, rfl, SameConfig.refl c, h, fun _ => rfl⟩
    | some l =>
      have hmem := AssocMap.mem_of_lookup hget
      have htr := h.tracks _ _ hmem
      obtain ⟨hpos, hcount⟩ := hok hmax (by omega) l hget
      have hlid := htr.holds.lid_ne_marker (hmarker _) hpos
      obtain ⟨l', hl', htr', hsame⟩ := bumpUsage_spec htr hpos hcount
      refine .inl ⟨c.setLidClass (lidClassKey pKey mtu rate) l', (l.lids 0).lid, ?_,
        ⟨rfl, rfl, rfl⟩, ?_, .inr (htr.holds.positive 0 hpos), ?_⟩
      · simp [hlid, hl', Bind.bind, Except.bind, Pure.pure, Except.pure]
      · exact h.write hmax hmem htr' (by omega) (h.budget hmax)
      · intro hex
        have := hex.2.2 l hget
        omega

theorem decommision_class (h : ClassInv c cnt) (hmax : c.maximumLids ≠ 0) (key : LidClassKey)
    (lid : Nat) (hpos : 0 < cnt key lid) :
    ∃ l i c', c.usageMap.lookup key = some l ∧ findLid l lid = some i ∧
      releaseLid c key l i = .ok c' ∧ SameConfig c c' ∧ ClassInv c' (oneFewer cnt key lid) := by
  obtain ⟨⟨key', l⟩, hmem, hkey⟩ := List.mem_map.mp (h.known hmax key lid hpos)
  obtain rfl : key' = key := hkey
  have htr := h.tracks key' l hmem
  have hle := h.lidsUsed_le hmax hmem
  have hbudget := h.budget hmax
  have hlt := h.maximum_lt
  obtain ⟨i, hfind⟩ := findLid_eq_some_of_pos htr hpos
  obtain ⟨hi, rfl⟩ := findLid_some hfind
  obtain ⟨l', htr', ⟨hrel, hused⟩ | ⟨hrel, hused⟩⟩ := releaseLid_spec htr hi (by omega) c key'
  · refine ⟨l, i, _, AssocMap.lookup_of_mem h.keys hmem, hfind, hrel, ⟨rfl, rfl, rfl⟩, ?_⟩
    exact h.write hmax hmem htr' (by omega) hbudget
  · have hdec : dec16 c.currentLids = c.currentLids - 1 := dec16_of_pos (by omega) (by omega)
    refine ⟨l, i, _, AssocMap.lookup_of_mem h.keys hmem, hfind, hrel, ⟨rfl, rfl, rfl⟩, ?_⟩
    exact h.write hmax hmem htr' (by omega) (by omega)

end Class

/-! ## The pool and the group list -/

def groupKey (g : McGroup) : LidClassKey := lidClassKey g.pKey g.mtu g.rate

def carriers (p : McPool) (groups : List McGroup) (ref : ClassRef) (key : LidClassKey)
    (lid : Nat) : Nat :=
  groups.countP fun g => findMcGroupClass p g.mGid = ref ∧ groupKey g = key ∧ g.mLid = lid

structure PoolInv (tcap : MlidTableCap) (p : McPool) (groups : List McGroup) : Prop where
  classes : ∀ ref, ClassInv (p.groupClass ref) (carriers p groups ref)
  range : ∀ g ∈ groups, multicastLidMin ≤ g.mLid ∧ g.mLid < multicastLidMin + tcap.cap

structure SameSetup (p p' : McPool) : Prop where
  num : p'.numMcGroupClasses = p.numMcGroupClasses
  config : ∀ ref, SameConfig (p.groupClass ref) (p'.groupClass ref)

theorem SameSetup.refl (p : McPool) : SameSetup p p := ⟨rfl, fun _ => SameConfig.refl _⟩

theorem SameSetup.find {p p' : McPool} (h : SameSetup p p') :
    findMcGroupClass p' = findMcGroupClass p := by
  funext gid
  simp only [findMcGroupClass, h.num, (h.config _).mask, (h.config _).value]

theorem sameSetup_setClass (p : McPool) {ref : ClassRef} {c : McGroupClass}
    (hcfg : SameConfig (p.groupClass ref) c) : SameSetup p (p.setClass ref c) := by
  refine ⟨rfl, fun r => ?_⟩
  by_cases hr : r = ref
  · rw [hr, McPool.setClass_self]
    exact hcfg
  · rw [McPool.setClass_other p hr]
    exact SameConfig.refl _

theorem carriers_congr {p p' : McPool} (hfind : findMcGroupClass p' = findMcGroupClass p)
    (groups : List McGroup) : carriers p' groups = carriers p groups := by
  funext ref key lid
  simp only [carriers, hfind]

theorem carriers_cons_self (p : McPool) (g : McGroup) (groups : List McGroup) :
    carriers p (g :: groups) (findMcGroupClass p g.mGid) =
      oneMore (carriers p groups (findMcGroupClass p g.mGid)) (groupKey g) g.mLid := by
  funext key lid
  unfold oneMore
  by_cases hkey : key = groupKey g
  · subst hkey
    rw [Function.update_self]
    by_cases hlid : lid = g.mLid
    · subst hlid
      rw [Function.update_self]
      simp [carriers]
    · rw [Function.update_of_ne hlid]
      simp [carriers, Ne.symm hlid]
  · rw [Function.update_of_ne hkey]
    simp [carriers, Ne.symm hkey]

theorem carriers_cons_other (p : McPool) (g : McGroup) (groups : List McGroup) {ref : ClassRef}
    (href : ref ≠ findMcGroupClass p g.mGid) :
    carriers p (g :: groups) ref = carriers p groups ref := by
  funext key lid
  simp [carriers, Ne.symm href]

theorem carriers_perm (p : McPool) {groups groups' : List McGroup} (h : groups.Perm groups') :
    carriers p groups = carriers p groups' := by
  funext ref key lid
  exact h.countP_eq _

theorem oneFewer_oneMore (cnt : LidClassKey → Nat → Nat) (key : LidClassKey) (lid : Nat) :
    oneFewer (oneMore cnt key lid) key lid = cnt := by
  simp [oneFewer, oneMore]

theorem carriers_eq_zero {p : McPool} {groups : List McGroup} {lid : Nat}
    (h : ∀ g ∈ groups, g.mLid ≠ lid) (ref : ClassRef) (key : LidClassKey) :
    carriers p groups ref key lid = 0 := by
  rw [carriers, List.countP_eq_zero]
  intro g hg
  simp [h g hg]

theorem exists_mem_of_carriers_pos {p : McPool} {groups : List McGroup} {ref : ClassRef}
    {key : LidClassKey} {lid : Nat} (h : 0 < carriers p groups ref key lid) :
    ∃ g ∈ groups, g.mLid = lid := by
  obtain ⟨g, hg, hprop⟩ := List.countP_pos_iff.mp h
  exact ⟨g, hg, (of_decide_eq_true hprop).2.2⟩

section Pool

variable {tcap : MlidTableCap} {p : McPool} {groups : List McGroup}

/-- Every lid class counts the groups that share its MLIDs, whatever range these are in. -/
structure TableInv (p : McPool) (groups : List McGroup) : Prop where
  classes : ∀ ref, ClassInv (p.groupClass ref) (carriers p groups ref)
  unmarked : ∀ g ∈ groups, g.mLid ≠ 0xFFFFFFFF

theorem ne_marker_of_range {lid : Nat} (h : lid < multicastLidMin + tcap.cap) :
    lid ≠ 0xFFFFFFFF := by
  have hcap := tcap.cap_le
  unfold multicastLidMin at h
  unfold maxSizeMft at hcap
  omega

theorem PoolInv.tables (h : PoolInv tcap p groups) : TableInv p groups :=
  ⟨h.classes, fun g hg => ne_marker_of_range (h.range g hg).2⟩

theorem TableInv.update (h : TableInv p groups) {ref : ClassRef} {c : McGroupClass}
    (hcfg : SameConfig (p.groupClass ref) c) {groups' : List McGroup}
    (hc : ClassInv c (carriers p groups' ref))
    (hother : ∀ r, r ≠ ref → carriers p groups' r = carriers p groups r)
    (hunmarked : ∀ g ∈ groups', g.mLid ≠ 0xFFFFFFFF) :
    TableInv (p.setClass ref c) groups' := by
  refine ⟨fun r => ?_, hunmarked⟩
  rw [carriers_congr (sameSetup_setClass p hcfg).find]
  by_cases hr : r = ref
  · subst hr
    rwa [McPool.setClass_self]
  · rw [McPool.setClass_other p hr, hother r hr]
    exact h.classes r

theorem TableInv.marker (h : TableInv p groups) (ref : ClassRef) (key : LidClassKey) :
    carriers p groups ref key 0xFFFFFFFF = 0 :=
  carriers_eq_zero h.unmarked ref key

theorem TableInv.unmarked_cons (h : TableInv p groups) {g : McGroup}
    (hg : g.mLid ≠ 0xFFFFFFFF) : ∀ g' ∈ g :: groups, g'.mLid ≠ 0xFFFFFFFF := by
  intro g' hg'
  rcases List.mem_cons.mp hg' with rfl | hmem
  · exact hg
  · exact h.unmarked g' hmem

theorem ClassInv.unbudgeted {c : McGroupClass} {cnt : LidClassKey → Nat → Nat}
    (h : ClassInv c cnt) (hmax : c.maximumLids = 0) (used : Nat)
    (cnt' : LidClassKey → Nat → Nat) : ClassInv { c with currentLids := used } cnt' := by
  have hmap := h.unshared hmax
  refine ⟨h.maximum_lt, h.unshared, h.keys, ?_, ?_, ?_, ?_⟩
  · intro key l hl
    simp [hmap] at hl
  all_goals exact fun hne => absurd hmax hne

theorem carriers_of_unused {lid : Nat} (hunused : smMulticastIsLidInUse groups lid = 0)
    (ref : ClassRef) (key : LidClassKey) : carriers p groups ref key lid = 0 := by
  refine carriers_eq_zero (fun g hg heq => ?_) ref key
  rw [smMulticastIsLidInUse, List.countP_eq_zero] at hunused
  exact hunused g hg (by simp [heq])

theorem smMcFindUnusedLid_unused {lid : Nat} (h : smMcFindUnusedLid tcap groups = some lid) :
    smMulticastIsLidInUse groups lid = 0 := by
  have hprop := (firstUnused_some h).2.2
  simpa using hprop

variable (tcap) in
/-- Every `sm_multicast_assign_lid` that may be made answers with an unused MLID or one of the
lid class, and the tables stay right for the groups with the new one among them. -/
theorem smMulticastAssignLid_tables (h : TableInv p groups) {mGid : IbGid}
    {pKey mtu rate : Nat}
    (hok : ShareOk (p.groupClass (findMcGroupClass p mGid)) pKey mtu rate) :
    (∃ p' lid, smMulticastAssignLid tcap p groups mGid pKey mtu rate = .ok (p', .ok lid) ∧
      SameSetup p p' ∧
      (smMcFindUnusedLid tcap groups = some lid ∨
        0 < carriers p groups (findMcGroupClass p mGid) (lidClassKey pKey mtu rate) lid) ∧
      ¬ Exhausted (p.groupClass (findMcGroupClass p mGid)) pKey mtu rate ∧
      ∀ g : McGroup, g.mGid = mGid → g.mLid = lid →
        ((p.groupClass (findMcGroupClass p mGid)).maximumLids ≠ 0 →
          groupKey g = lidClassKey pKey mtu rate) →
        TableInv p' (g :: groups)) ∨
    (∃ p' e, smMulticastAssignLid tcap p groups mGid pKey mtu rate = .ok (p', .error e) ∧
      SameSetup p p' ∧ TableInv p' groups ∧
      (Exhausted (p.groupClass (findMcGroupClass p mGid)) pKey mtu rate → e = .noResource)) := by
  have hclass := h.classes (findMcGroupClass p mGid)
  unfold smMulticastAssignLid
  by_cases hmax : (p.groupClass (findMcGroupClass p mGid)).maximumLids = 0
  · simp only [if_pos hmax]
    have hnot : ¬ Exhausted (p.groupClass (findMcGroupClass p mGid)) pKey mtu rate :=
      fun hex => hex.1 hmax
    cases hfree : smMcFindUnusedLid tcap groups with
    | none => exact .inr ⟨p, .bad, rfl, .refl p, h, fun hex => absurd hex hnot⟩
    | some lid =>
      have hin := firstUnused_some hfree
      have hcfg : SameConfig (p.groupClass (findMcGroupClass p mGid))
          { p.groupClass (findMcGroupClass p mGid) with
            currentLids := inc16 (p.groupClass (findMcGroupClass p mGid)).currentLids } :=
        ⟨rfl, rfl, rfl⟩
      refine .inl ⟨_, lid, rfl, sameSetup_setClass p hcfg, .inl rfl, hnot, ?_⟩
      intro g hg hlid _
      subst hg hlid
      apply h.update hcfg (hclass.unbudgeted hmax _ _)
      · exact fun r hr => carriers_cons_other p g groups hr
      · exact h.unmarked_cons (ne_marker_of_range hin.2.1)
  · simp only [if_neg hmax]
    rcases smMcGetGroupClassLid_spec tcap hclass hmax hok
        (fun lid hunused => carriers_of_unused hunused _ _) (h.marker _) with
      ⟨c', lid, hget, hcfg, hinv, hlid, hnot⟩ | ⟨c', e, hget, hcfg, hinv, hex⟩
    · have hmark : lid ≠ 0xFFFFFFFF := by
        rcases hlid with hfree | hpos
        · exact ne_marker_of_range (firstUnused_some hfree).2.1
        · obtain ⟨g, hg, rfl⟩ := exists_mem_of_carriers_pos hpos
          exact h.unmarked g hg
      refine .inl ⟨p.setClass (findMcGroupClass p mGid) c', lid, ?_,
        sameSetup_setClass p hcfg, hlid, hnot, ?_⟩
      · simp [hget, Bind.bind, Except.bind, Pure.pure, Except.pure]
      · intro g hg hmlid hkey
        subst hg hmlid
        refine h.update hcfg ?_ (fun r hr => carriers_cons_other p g groups hr)
          (h.unmarked_cons hmark)
        rwa [carriers_cons_self, hkey hmax]
    · refine .inr ⟨p.setClass (findMcGroupClass p mGid) c', e, ?_,
        sameSetup_setClass p hcfg, ?_, hex⟩
      · simp [hget, Bind.bind, Except.bind, Pure.pure, Except.pure]
      · exact h.update hcfg hinv (fun r _ => rfl) h.unmarked

/-- Every `sm_multicast_assign_lid` that may be made answers, and the pool stays
right for the groups with the new one among them. -/
theorem smMulticastAssignLid_spec (h : PoolInv tcap p groups) {mGid : IbGid}
    {pKey mtu rate : Nat}
    (hok : ShareOk (p.groupClass (findMcGroupClass p mGid)) pKey mtu rate) :
    (∃ p' lid, smMulticastAssignLid tcap p groups mGid pKey mtu rate = .ok (p', .ok lid) ∧
      (multicastLidMin ≤ lid ∧ lid < multicastLidMin + tcap.cap) ∧
      ¬ Exhausted (p.groupClass (findMcGroupClass p mGid)) pKey mtu rate ∧
      ∀ g : McGroup, g.mGid = mGid → g.mLid = lid →
        ((p.groupClass (findMcGroupClass p mGid)).maximumLids ≠ 0 →
          groupKey g = lidClassKey pKey mtu rate) →
        PoolInv tcap p' (g :: groups)) ∨
    (∃ p' e, smMulticastAssignLid tcap p groups mGid pKey mtu rate = .ok (p', .error e) ∧
      PoolInv tcap p' groups ∧
      (Exhausted (p.groupClass (findMcGroupClass p mGid)) pKey mtu rate → e = .noResource)) := by
  rcases smMulticastAssignLid_tables tcap h.tables hok with
    ⟨p', lid, hrun, _, hlid, hnot, htables⟩ | ⟨p', e, hrun, _, htables, hex⟩
  · have hin : multicastLidMin ≤ lid ∧ lid < multicastLidMin + tcap.cap := by
      rcases hlid with hfree | hpos
      · exact ⟨(firstUnused_some hfree).1, (firstUnused_some hfree).2.1⟩
      · obtain ⟨g, hg, rfl⟩ := exists_mem_of_carriers_pos hpos
        exact h.range g hg
    refine .inl ⟨p', lid, hrun, hin, hnot, fun g hg hmlid hkey => ?_⟩
    refine ⟨(htables g hg hmlid hkey).classes, fun g' hg' => ?_⟩
    rcases List.mem_cons.mp hg' with rfl | hmem
    · rw [hmlid]
      exact hin
    · exact h.range g' hmem
  · exact .inr ⟨p', e, hrun, ⟨htables.classes, h.range⟩, hex⟩

theorem TableInv.shareOk_of_answered (h : TableInv p groups) (hfew : groups.length < 0xFFFF)
    {mGid : IbGid} {pKey mtu rate : Nat} {res : McPool × Except VStatus Nat}
    (hrun : smMulticastAssignLid tcap p groups mGid pKey mtu rate = .ok res) :
    ShareOk (p.groupClass (findMcGroupClass p mGid)) pKey mtu rate := by
  intro hmax hfull l hget
  have htr := (h.classes (findMcGroupClass p mGid)).tracks _ _ (AssocMap.mem_of_lookup hget)
  have hused : 0 < l.lidsUsed := by
    by_contra hzero
    have hslot : (l.lids 0).lid = 0xFFFFFFFF := by
      rw [htr.holds.vacant 0 (by omega)]
      rfl
    simp [smMulticastAssignLid, hmax, smMcGetGroupClassLid, Nat.not_lt.mpr hfull, hget, hslot,
      Bind.bind, Except.bind] at hrun
  refine ⟨hused, ?_⟩
  rw [htr.holds.counts 0 hused]
  exact Nat.lt_of_le_of_lt List.countP_le_length hfew

theorem smMulticastDecommisionGroup_tables {g : McGroup} {rest : List McGroup}
    (h : TableInv p groups) (hperm : groups.Perm (g :: rest)) :
    ∃ p', smMulticastDecommisionGroup p g = .ok p' ∧ SameSetup p p' ∧ TableInv p' rest := by
  have hclass := h.classes (findMcGroupClass p g.mGid)
  rw [carriers_perm p hperm] at hclass
  have hother : ∀ r, r ≠ findMcGroupClass p g.mGid →
      carriers p rest r = carriers p groups r := by
    intro r hr
    rw [carriers_perm p hperm, carriers_cons_other p g rest hr]
  have hunmarked : ∀ g' ∈ rest, g'.mLid ≠ 0xFFFFFFFF :=
    fun g' hg' => h.unmarked g' (hperm.mem_iff.mpr (List.mem_cons_of_mem g hg'))
  unfold smMulticastDecommisionGroup
  by_cases hmax : (p.groupClass (findMcGroupClass p g.mGid)).maximumLids = 0
  · simp only [if_pos hmax]
    refine ⟨p, rfl, .refl p, fun r => ?_, hunmarked⟩
    by_cases hr : r = findMcGroupClass p g.mGid
    · subst hr
      exact hclass.unbudgeted hmax _ _
    · rw [hother r hr]
      exact h.classes r
  · simp only [if_neg hmax]
    rw [carriers_cons_self] at hclass
    obtain ⟨l, i, c', hget, hfind, hrel, hcfg, hinv⟩ :=
      decommision_class hclass hmax (groupKey g) g.mLid (by simp [oneMore])
    rw [oneFewer_oneMore] at hinv
    have hget' : getLidClass (p.groupClass (findMcGroupClass p g.mGid)) g.pKey g.mtu g.rate =
        some l := hget
    have hrel' : releaseLid (p.groupClass (findMcGroupClass p g.mGid))
        (lidClassKey g.pKey g.mtu g.rate) l i = .ok c' := hrel
    refine ⟨p.setClass (findMcGroupClass p g.mGid) c', ?_, sameSetup_setClass p hcfg,
      h.update hcfg hinv hother hunmarked⟩
    simp [hget', hfind, hrel', Bind.bind, Except.bind, Pure.pure, Except.pure]

theorem smMulticastDecommisionGroup_spec {g : McGroup} {rest : List McGroup}
    (h : PoolInv tcap p groups) (hperm : groups.Perm (g :: rest)) :
    ∃ p', smMulticastDecommisionGroup p g = .ok p' ∧ PoolInv tcap p' rest := by
  obtain ⟨p', hrun, _, htables⟩ := smMulticastDecommisionGroup_tables h.tables hperm
  refine ⟨p', hrun, htables.classes, fun g' hg' => ?_⟩
  exact h.range g' (hperm.mem_iff.mpr (List.mem_cons_of_mem g hg'))

end Pool

/-! ## Runs -/

structure McGroupClassConfig where
  mask : IbGid := 0
  value : IbGid := 0
  maximumLids : Nat
  maximum_lt : maximumLids < 65536

structure McPoolConfig where
  numMcGroupClasses : Nat
  groupClass : ClassRef → McGroupClassConfig

def McPoolConfig.initial (cfg : McPoolConfig) : McPool where
  numMcGroupClasses := cfg.numMcGroupClasses
  groupClass ref :=
    { mask := (cfg.groupClass ref).mask
      value := (cfg.groupClass ref).value
      maximumLids := (cfg.groupClass ref).maximumLids }

theorem poolInv_initial (tcap : MlidTableCap) (cfg : McPoolConfig) :
    PoolInv tcap cfg.initial [] := by
  refine ⟨fun ref => ⟨(cfg.groupClass ref).maximum_lt, fun _ => rfl, List.nodup_nil, ?_, ?_,
    fun _ => rfl, fun _ => Nat.zero_le _⟩, fun g hg => absurd hg (List.not_mem_nil)⟩
  · intro key l hl
    exact absurd hl (List.not_mem_nil)
  · intro _ key lid hpos
    exact absurd hpos (Nat.lt_irrefl 0)

structure PoolState where
  pool : McPool
  groups : List McGroup

/-- A call on the pool: an assignment for a group about to be created, or the
removal of the group at a position of `sm_McGroups`. -/
inductive PoolOp where
  | assign (g : McGroup)
  | decommision (pos : Nat)

/-- One call, with what its caller then does to `sm_McGroups`.  A position with
no group is no call. -/
def poolStep (tcap : MlidTableCap) (s : PoolState) :
    PoolOp → Except Fault (PoolState × Option (Except VStatus Nat))
  | .assign g => do
      let (pool, r) ← smMulticastAssignLid tcap s.pool s.groups g.mGid g.pKey g.mtu g.rate
      match r with
      | .ok lid => pure (⟨pool, { g with mLid := lid } :: s.groups⟩, some (.ok lid))
      | .error e => pure (⟨pool, s.groups⟩, some (.error e))
  | .decommision pos =>
    match s.groups[pos]? with
    | none => pure (s, none)
    | some g => do
        let pool ← smMulticastDecommisionGroup s.pool g
        pure (⟨pool, s.groups.eraseIdx pos⟩, none)

def assignClass (s : PoolState) (g : McGroup) : McGroupClass :=
  s.pool.groupClass (findMcGroupClass s.pool g.mGid)

/-- An assignment does not ask an exhausted class to share from a lid class that
exists but holds no MLID, nor from one whose least used MLID has 65535 groups. -/
def PoolStepOk (s : PoolState) : PoolOp → Prop
  | .assign g => ShareOk (assignClass s g) g.pKey g.mtu g.rate
  | .decommision _ => True

/-- The step ends without a failed assertion, a granted MLID lies in the table,
and a class with nothing left to give or to share answers `VSTATUS_NORESOURCE`. -/
def PoolStepMeets (tcap : MlidTableCap) (s : PoolState) (op : PoolOp) : Prop :=
  ∃ s' reply, poolStep tcap s op = .ok (s', reply) ∧
    (∀ lid, reply = some (.ok lid) →
      multicastLidMin ≤ lid ∧ lid < multicastLidMin + tcap.cap) ∧
    (∀ g, op = .assign g → Exhausted (assignClass s g) g.pKey g.mtu g.rate →
      reply = some (.error .noResource))

theorem poolStep_spec {tcap : MlidTableCap} {s : PoolState} (h : PoolInv tcap s.pool s.groups)
    {op : PoolOp} (hok : PoolStepOk s op) :
    PoolStepMeets tcap s op ∧
      ∀ s' reply, poolStep tcap s op = .ok (s', reply) → PoolInv tcap s'.pool s'.groups := by
  cases op with
  | assign g =>
    rcases smMulticastAssignLid_spec h hok with
      ⟨p', lid, hrun, hin, hnot, hinv⟩ | ⟨p', e, hrun, hinv, hex⟩
    · have hstep : poolStep tcap s (.assign g) =
          .ok (⟨p', { g with mLid := lid } :: s.groups⟩, some (.ok lid)) := by
        simp [poolStep, hrun, Bind.bind, Except.bind, Pure.pure, Except.pure]
      refine ⟨⟨_, _, hstep, ?_, ?_⟩, ?_⟩
      · rintro _ ⟨⟩
        exact hin
      · rintro _ ⟨⟩ hexh
        exact absurd hexh hnot
      · intro s' reply heq
        rw [hstep] at heq
        obtain ⟨rfl, rfl⟩ := Prod.mk.inj (Except.ok.inj heq)
        exact hinv { g with mLid := lid } rfl rfl (fun _ => rfl)
    · have hstep : poolStep tcap s (.assign g) = .ok (⟨p', s.groups⟩, some (.error e)) := by
        simp [poolStep, hrun, Bind.bind, Except.bind, Pure.pure, Except.pure]
      refine ⟨⟨_, _, hstep, ?_, ?_⟩, ?_⟩
      · rintro _ ⟨⟩
      · rintro _ ⟨⟩ hexh
        rw [hex hexh]
      · intro s' reply heq
        rw [hstep] at heq
        obtain ⟨rfl, rfl⟩ := Prod.mk.inj (Except.ok.inj heq)
        exact hinv
  | decommision pos =>
    cases hget : s.groups[pos]? with
    | none =>
      have hstep : poolStep tcap s (.decommision pos) = .ok (s, none) := by
        simp [poolStep, hget, Pure.pure, Except.pure]
      refine ⟨⟨_, _, hstep, by rintro _ ⟨⟩, by rintro _ ⟨⟩⟩, ?_⟩
      intro s' reply heq
      rw [hstep] at heq
      obtain ⟨rfl, rfl⟩ := Prod.mk.inj (Except.ok.inj heq)
      exact h
    | some g =>
      obtain ⟨hlt, hg⟩ := List.getElem?_eq_some_iff.mp hget
      have hperm : s.groups.Perm (g :: s.groups.eraseIdx pos) := by
        rw [← hg]
        exact (List.getElem_cons_eraseIdx_perm hlt).symm
      obtain ⟨p', hrun, hinv⟩ := smMulticastDecommisionGroup_spec h hperm
      have hstep : poolStep tcap s (.decommision pos) =
          .ok (⟨p', s.groups.eraseIdx pos⟩, none) := by
        simp [poolStep, hget, hrun, Bind.bind, Except.bind, Pure.pure, Except.pure]
      refine ⟨⟨_, _, hstep, by rintro _ ⟨⟩, by rintro _ ⟨⟩⟩, ?_⟩
      intro s' reply heq
      rw [hstep] at heq
      obtain ⟨rfl, rfl⟩ := Prod.mk.inj (Except.ok.inj heq)
      exact hinv

theorem poolInv_of_reach {tcap : MlidTableCap} {cfg : McPoolConfig} {s : PoolState}
    (hreach : Reach (poolStep tcap) PoolStepOk ⟨cfg.initial, []⟩ s) :
    PoolInv tcap s.pool s.groups :=
  Reach.invariant (fun s => PoolInv tcap s.pool s.groups) (poolInv_initial tcap cfg)
    (fun _ _ s' o hs hok hstep => (poolStep_spec hs hok).2 s' o hstep) hreach

/-- In every run whose assignments all meet `PoolStepOk`, every further such
step does what the pool promises. -/
theorem pool_run_meets (tcap : MlidTableCap) (cfg : McPoolConfig) (s : PoolState) (op : PoolOp)
    (hreach : Reach (poolStep tcap) PoolStepOk ⟨cfg.initial, []⟩ s) (hop : PoolStepOk s op) :
    PoolStepMeets tcap s op :=
  (poolStep_spec (poolInv_of_reach hreach) hop).1

/-- One shared MLID for every group, in a table of sixteen. -/
def oneLidConfig : McPoolConfig := ⟨0, fun _ => { maximumLids := 1, maximum_lt := by decide }⟩

theorem pool_run_meets_first :
    PoolStepMeets sixteenLids ⟨oneLidConfig.initial, []⟩ (.assign { pKey := 0x8001 }) :=
  pool_run_meets sixteenLids oneLidConfig _ _ .start
    (fun _ hle => absurd hle (by decide))

/-- The only MLID goes to one P_Key, is given back, and goes to another; the
first P_Key's lid class is then there but empty, and the next request in it
stops at the assertion on slot 0. -/
theorem pool_run_empty_lid_class :
    ∃ s, Reach (poolStep sixteenLids) (fun _ _ => True) ⟨oneLidConfig.initial, []⟩ s ∧
      ¬ PoolStepMeets sixteenLids s (.assign { pKey := 0x8001 }) := by
  obtain ⟨s, hreach, e, hfault⟩ := exists_reach_of_faultsAfter
    (poolStep sixteenLids) ⟨oneLidConfig.initial, []⟩
    [.assign { pKey := 0x8001 }, .decommision 0, .assign { pKey := 0x8002 }]
    (.assign { pKey := 0x8001 }) (by decide)
  refine ⟨s, hreach, ?_⟩
  rintro ⟨s', reply, hok, -⟩
  rw [hfault] at hok
  cases hok

end OpaFm.Multicast
