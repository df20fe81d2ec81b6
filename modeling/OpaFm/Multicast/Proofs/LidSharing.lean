import OpaFm.Multicast.Proofs.LidPool
import OpaFm.Multicast.Proofs.SaStep
import Mathlib.Data.List.Pairwise

/-!
# Which groups share an MLID

In a run of assignments and decommissions every table of lids counts the groups that use each of
its MLIDs, and only groups of one class and lid class share one.
-/

namespace OpaFm.Multicast

section

open OpaFm.Fabric OpaFm.Lib

/-! ## The tables of lids -/

def SameTable (p : McPool) (g g' : McGroup) : Prop :=
  findMcGroupClass p g.mGid = findMcGroupClass p g'.mGid ∧
    pKeyValue (g.pKey % 0x10000) = pKeyValue (g'.pKey % 0x10000) ∧
    g.mtu % 64 = g'.mtu % 64 ∧ g.rate % 64 = g'.rate % 64

/-- Every lid class is a heap of distinct MLIDs, with the number of groups that use each and
nothing beyond; the budgets are kept; and MLIDs are shared within one table only. -/
structure LidTables (s : PoolState) : Prop where
  ordered : ∀ ref key l, (key, l) ∈ (s.pool.groupClass ref).usageMap → ∀ i, 0 < i →
    i < l.lidsUsed → (l.lids (BinaryHeap.parentNode i)).usageCount ≤ (l.lids i).usageCount
  distinct : ∀ ref key l, (key, l) ∈ (s.pool.groupClass ref).usageMap → ∀ i j, i < l.lidsUsed →
    j < l.lidsUsed → (l.lids i).lid = (l.lids j).lid → i = j
  vacant : ∀ ref key l, (key, l) ∈ (s.pool.groupClass ref).usageMap → ∀ i, l.lidsUsed ≤ i →
    l.lids i = .empty
  counts : ∀ ref key l, (key, l) ∈ (s.pool.groupClass ref).usageMap → ∀ i, i < l.lidsUsed →
    (l.lids i).usageCount = smMulticastIsLidInUse s.groups (l.lids i).lid
  total : ∀ ref, (s.pool.groupClass ref).maximumLids ≠ 0 → (s.pool.groupClass ref).currentLids =
    ((s.pool.groupClass ref).usageMap.map fun e => e.2.lidsUsed).sum
  budget : ∀ ref, (s.pool.groupClass ref).maximumLids ≠ 0 →
    (s.pool.groupClass ref).currentLids ≤ (s.pool.groupClass ref).maximumLids
  shared : s.groups.Pairwise fun g g' => g.mLid = g'.mLid → SameTable s.pool g g'

/-- A class without budget is only asked to share from a lid class that has an MLID. -/
def LidsToShare (s : PoolState) : PoolOp → Prop
  | .assign g => (assignClass s g).maximumLids ≤ (assignClass s g).currentLids →
      ∀ l, getLidClass (assignClass s g) g.pKey g.mtu g.rate = some l → 0 < l.lidsUsed
  | .decommision _ => True

def FewLidsToShare (s : PoolState) (op : PoolOp) : Prop :=
  LidsToShare s op ∧ s.groups.length < 0xFFFF

theorem sameTable_of_groupKey {p : McPool} {g g' : McGroup}
    (hclass : findMcGroupClass p g.mGid = findMcGroupClass p g'.mGid)
    (hkey : groupKey g = groupKey g') : SameTable p g g' := by
  unfold groupKey lidClassKey at hkey
  rw [LidClassKey.mk.injEq] at hkey
  exact ⟨hclass, hkey⟩

theorem SameTable.groupKey {p : McPool} {g g' : McGroup} (h : SameTable p g g') :
    groupKey g = groupKey g' := by
  unfold Multicast.groupKey lidClassKey
  rw [h.2.1, h.2.2.1, h.2.2.2]

/-! ## Runs -/

structure SharingInv (tcap : MlidTableCap) (s : PoolState) : Prop where
  pool : PoolInv tcap s.pool s.groups
  shared : s.groups.Pairwise fun g g' => g.mLid = g'.mLid → SameTable s.pool g g'

variable {tcap : MlidTableCap} {s s' : PoolState}

theorem SharingInv.same_table (h : SharingInv tcap s) {g g' : McGroup} (hg : g ∈ s.groups)
    (hg' : g' ∈ s.groups) (hlid : g.mLid = g'.mLid) : SameTable s.pool g g' := by
  have hsymm : Std.Symm fun x y : McGroup => x.mLid = y.mLid → SameTable s.pool x y := by
    constructor
    intro x y hxy heq
    obtain ⟨hclass, hpkey, hmtu, hrate⟩ := hxy heq.symm
    exact ⟨hclass.symm, hpkey.symm, hmtu.symm, hrate.symm⟩
  apply h.shared.forall_of_forall _ hg hg' hlid
  exact fun x _ _ => ⟨rfl, rfl, rfl, rfl⟩

theorem SharingInv.carriers_eq (h : SharingInv tcap s) {ref : ClassRef} {key : LidClassKey}
    {lid : Nat} (hpos : 0 < carriers s.pool s.groups ref key lid) :
    carriers s.pool s.groups ref key lid = smMulticastIsLidInUse s.groups lid := by
  obtain ⟨g, hg, hprop⟩ := List.countP_pos_iff.mp hpos
  obtain ⟨hclass, hkey, hlid⟩ := of_decide_eq_true hprop
  unfold carriers smMulticastIsLidInUse
  apply List.countP_congr
  intro g' hg'
  rw [decide_eq_true_eq, decide_eq_true_eq]
  constructor
  · exact fun h => h.2.2
  · intro hlid'
    have hsame := h.same_table hg' hg (hlid'.trans hlid.symm)
    exact ⟨hsame.1.trans hclass, hsame.groupKey.trans hkey, hlid'⟩

theorem SharingInv.lidTables (h : SharingInv tcap s) : LidTables s where
  ordered ref key l hl i hi hlt := ((h.pool.classes ref).tracks key l hl).ordered i hi hlt
  distinct ref key l hl i j hi hj :=
    ((h.pool.classes ref).tracks key l hl).holds.distinct i j hi hj
  vacant ref key l hl i hi := ((h.pool.classes ref).tracks key l hl).holds.vacant i hi
  counts ref key l hl i hi := by
    have htr := (h.pool.classes ref).tracks key l hl
    rw [htr.holds.counts i hi]
    exact h.carriers_eq (htr.holds.positive i hi)
  total ref := (h.pool.classes ref).total
  budget ref := (h.pool.classes ref).budget
  shared := h.shared

theorem SharingInv.poolStepOk (h : SharingInv tcap s) {op : PoolOp} (hok : FewLidsToShare s op) :
    PoolStepOk s op := by
  cases op with
  | decommision pos => exact trivial
  | assign g =>
    intro hmax hfull l hget
    have hused := hok.1 hfull l hget
    have htr := (h.pool.classes (findMcGroupClass s.pool g.mGid)).tracks _ _
      (AssocMap.mem_of_lookup hget)
    refine ⟨hused, ?_⟩
    rw [htr.holds.counts 0 hused]
    calc carriers s.pool s.groups _ _ _ ≤ s.groups.length := List.countP_le_length
      _ < 0xFFFF := hok.2

theorem SharingInv.step (h : SharingInv tcap s) {op : PoolOp} (hok : FewLidsToShare s op)
    {reply : Option (Except VStatus Nat)} (hstep : poolStep tcap s op = .ok (s', reply)) :
    SharingInv tcap s' := by
  have hstepOk := h.poolStepOk hok
  refine ⟨(poolStep_spec h.pool hstepOk).2 s' reply hstep, ?_⟩
  have hmove : ∀ {p' : McPool}, SameSetup s.pool p' →
      s.groups.Pairwise fun g g' => g.mLid = g'.mLid → SameTable p' g g' := by
    intro p' hsetup
    apply h.shared.imp
    intro g g' hsame heq
    have htable := hsame heq
    unfold SameTable at htable ⊢
    rw [hsetup.find]
    exact htable
  cases op with
  | assign g =>
    rcases smMulticastAssignLid_tables tcap h.pool.tables hstepOk with
      ⟨p', lid, hrun, hsetup, horigin, _⟩ | ⟨p', e, hrun, hsetup, _⟩
    · simp only [poolStep, hrun, Bind.bind, Except.bind, Pure.pure, Except.pure] at hstep
      cases hstep
      refine List.Pairwise.cons ?_ (hmove hsetup)
      intro g' hg' heq
      have hlid : lid = g'.mLid := heq
      rcases horigin with hfree | hpos
      · -- an MLID that no group uses is not the one of another group
        have hunused := smMcFindUnusedLid_unused hfree
        rw [smMulticastIsLidInUse, List.countP_eq_zero] at hunused
        exact absurd (decide_eq_true hlid.symm) (hunused g' hg')
      · obtain ⟨g₁, hg₁, hprop⟩ := List.countP_pos_iff.mp hpos
        obtain ⟨hclass, hkey, hlid₁⟩ := of_decide_eq_true hprop
        have hsame := h.same_table hg₁ hg' (hlid₁.trans hlid)
        apply sameTable_of_groupKey
        · rw [hsetup.find]
          exact hclass.symm.trans hsame.1
        · exact hkey.symm.trans hsame.groupKey
    · simp only [poolStep, hrun, Bind.bind, Except.bind, Pure.pure, Except.pure] at hstep
      cases hstep
      exact hmove hsetup
  | decommision pos =>
    cases hget : s.groups[pos]? with
    | none =>
      simp only [poolStep, hget, Pure.pure, Except.pure] at hstep
      cases hstep
      exact h.shared
    | some g =>
      obtain ⟨hlt, hg⟩ := List.getElem?_eq_some_iff.mp hget
      have hperm : s.groups.Perm (g :: s.groups.eraseIdx pos) := by
        rw [← hg]
        exact (List.getElem_cons_eraseIdx_perm hlt).symm
      obtain ⟨p', hrun, hsetup, _⟩ := smMulticastDecommisionGroup_tables h.pool.tables hperm
      simp only [poolStep, hget, hrun, Bind.bind, Except.bind, Pure.pure, Except.pure] at hstep
      cases hstep
      exact (hmove hsetup).sublist (List.eraseIdx_sublist _ _)

/-- The tables of lids in every state of a run in which a class without budget is only asked to
share where its lid class has an MLID, and the groups fit into a counter. -/
theorem lid_tables_run (tcap : MlidTableCap) (cfg : McPoolConfig) (s : PoolState)
    (hreach : Reach (poolStep tcap) FewLidsToShare ⟨cfg.initial, []⟩ s) : LidTables s := by
  have hinv : SharingInv tcap s :=
    Reach.invariant (SharingInv tcap) ⟨poolInv_initial tcap cfg, List.Pairwise.nil⟩
      (fun _ _ _ _ hs hok hstep => hs.step hok hstep) hreach
  exact hinv.lidTables

theorem lid_tables_run_first : ∃ s, s.groups.length = 1 ∧ LidTables s := by
  obtain ⟨s, o, hstep, hlen⟩ := exists_of_stepsTo (poolStep sixteenLids) ⟨oneLidConfig.initial, []⟩
    (.assign { pKey := 0x8001 }) (fun s => s.groups.length = 1) (by decide)
  have hok : FewLidsToShare ⟨oneLidConfig.initial, []⟩ (.assign { pKey := 0x8001 }) :=
    ⟨fun hle => absurd hle (by decide), by decide⟩
  exact ⟨s, of_decide_eq_true hlen,
    lid_tables_run sixteenLids oneLidConfig s (.next .start hok hstep)⟩

/-! ## More groups than a counter can count -/

theorem bumpUsage_single {l : LidClass} (hused : l.lidsUsed = 1) :
    bumpUsage l 0 = .ok (l.setSlot 0 ⟨(l.lids 0).lid, inc16 (l.lids 0).usageCount⟩) := by
  have hcheck : ∀ m : LidClass, m.lidsUsed = 1 → checkHeap m = true := by
    intro m hm
    unfold checkHeap
    rw [hm]
    rfl
  unfold bumpUsage heapTrickleDown heapChecked
  rw [if_pos]
  · congr 1
    unfold LidClass.setSlot
    congr 1
    simp only [BinaryHeap.siftDown, hused, BinaryHeap.sinkHole, BinaryHeap.childLeft,
      Nat.lt_irrefl, Nat.mul_zero, Nat.zero_add, ↓reduceIte, Function.update_eq_self]
  · apply hcheck
    exact hused

structure OneLidShared (s : PoolState) (n : Nat) : Prop where
  num : s.pool.numMcGroupClasses = 0
  maximum : (s.pool.groupClass .default).maximumLids = 1
  current : (s.pool.groupClass .default).currentLids = 1
  lidClass : ∃ l, getLidClass (s.pool.groupClass .default) 0x8001 0 0 = some l ∧ l.lidsUsed = 1 ∧
    l.lids 0 = ⟨0xC000, n % 65536⟩
  groups : ∀ g ∈ s.groups, g.mLid = 0xC000
  length : s.groups.length = n

theorem OneLidShared.next {n : Nat} (h : OneLidShared s n) :
    LidsToShare s (.assign { pKey := 0x8001 }) ∧
      ∃ s' reply, poolStep sixteenLids s (.assign { pKey := 0x8001 }) = .ok (s', reply) ∧
        OneLidShared s' (n + 1) := by
  obtain ⟨l, hget, hused, hslot⟩ := h.lidClass
  have hclass : findMcGroupClass s.pool 0 = .default := by
    unfold findMcGroupClass
    rw [h.num]
    rfl
  constructor
  · intro _ l' hget'
    have heq : getLidClass (assignClass s { pKey := 0x8001 }) 0x8001 0 0 = some l := by
      unfold assignClass
      rw [hclass, hget]
    rw [heq] at hget'
    cases hget'
    omega
  · have hbump := bumpUsage_single hused
    rw [hslot] at hbump
    have hrun : smMulticastAssignLid sixteenLids s.pool s.groups 0 0x8001 0 0 =
        .ok (s.pool.setClass .default ((s.pool.groupClass .default).setLidClass
          (lidClassKey 0x8001 0 0) (l.setSlot 0 ⟨0xC000, inc16 (n % 65536)⟩)), .ok 0xC000) := by
      simp only [smMulticastAssignLid, hclass, h.maximum, smMcGetGroupClassLid, h.current, hget,
        hslot, hbump, Nat.lt_irrefl, Nat.one_ne_zero, ↓reduceIte, Bind.bind, Except.bind,
        Pure.pure, Except.pure]
      rfl
    refine ⟨_, _, by simp only [poolStep, hrun, Bind.bind, Except.bind]; rfl, ?_⟩
    constructor
    · exact h.num
    · rw [McPool.setClass_self]
      exact h.maximum
    · rw [McPool.setClass_self]
      exact h.current
    · refine ⟨l.setSlot 0 ⟨0xC000, inc16 (n % 65536)⟩, ?_, hused, ?_⟩
      · rw [McPool.setClass_self]
        exact AssocMap.lookup_set_self hget _
      · simp only [LidClass.setSlot, Function.update_self, inc16]
        congr 1
        omega
    · intro g hg
      rcases List.mem_cons.mp hg with rfl | hmem
      · rfl
      · exact h.groups g hmem
    · simp [h.length]

theorem oneLidShared_run (n : Nat) : ∃ s,
    Reach (poolStep sixteenLids) LidsToShare ⟨oneLidConfig.initial, []⟩ s ∧
      OneLidShared s (n + 1) := by
  induction n with
  | zero =>
    obtain ⟨s, o, hstep, hshared⟩ : ∃ s o, poolStep sixteenLids ⟨oneLidConfig.initial, []⟩
        (.assign { pKey := 0x8001 }) = .ok (s, o) ∧ OneLidShared s 1 :=
      ⟨_, _, rfl, rfl, rfl, rfl, ⟨_, rfl, rfl, rfl⟩, by decide, rfl⟩
    have hok : LidsToShare ⟨oneLidConfig.initial, []⟩ (.assign { pKey := 0x8001 }) :=
      fun hle => absurd hle (by decide)
    exact ⟨s, .next .start hok hstep, hshared⟩
  | succ n ih =>
    obtain ⟨s, hreach, hshared⟩ := ih
    obtain ⟨hok, s', o, hstep, hshared'⟩ := hshared.next
    exact ⟨s', .next hreach hok hstep, hshared'⟩

/-- With 65536 groups on one MLID its counter is back at zero. -/
theorem lid_tables_run_wraps : ∃ s,
    Reach (poolStep sixteenLids) LidsToShare ⟨oneLidConfig.initial, []⟩ s ∧ ¬LidTables s := by
  obtain ⟨s, hreach, hshared⟩ := oneLidShared_run 65535
  refine ⟨s, hreach, fun h => ?_⟩
  obtain ⟨l, hget, hused, hslot⟩ := hshared.lidClass
  have hcount := h.counts .default _ l (AssocMap.mem_of_lookup hget) 0 (by omega)
  have hall : smMulticastIsLidInUse s.groups 0xC000 = s.groups.length := by
    apply List.countP_eq_length.mpr
    intro g hg
    exact decide_eq_true (hshared.groups g hg)
  rw [hslot, hall, hshared.length] at hcount
  exact absurd hcount (by decide)

end

/-!
## MLIDs across create and delete

A group's MLID is recorded under the key that its creation passes to
`sm_multicast_assign_lid`, and given back under the key of its stored `pKey`,
`mtu` and `rate`.  Where the two agree, the pool records each MLID with exactly
the groups that carry it, in every state of every run of requests.
-/

open OpaFm.Lib

def recordedUsage (c : McGroupClass) (key : LidClassKey) (lid : Nat) : Nat :=
  match c.usageMap.lookup key with
  | none => 0
  | some l =>
    match findLid l lid with
    | none => 0
    | some i => (l.lids i).usageCount

def classOf (st : SaState) (g : McGroup) : McGroupClass :=
  st.pool.groupClass (findMcGroupClass st.pool g.mGid)

/-- The pool counts every group where its deletion will look for it. -/
structure MlidsAccounted (st : SaState) : Prop where
  usage : ∀ ref, (st.pool.groupClass ref).maximumLids ≠ 0 → ∀ key lid,
    recordedUsage (st.pool.groupClass ref) key lid = carriers st.pool st.mcGroups ref key lid
  lookup : ∀ g ∈ st.mcGroups, (classOf st g).maximumLids ≠ 0 →
    (getLidClass (classOf st g) g.pKey g.mtu g.rate).isSome = true
  release : ∀ g ∈ st.mcGroups, ∃ pool, smMulticastDecommisionGroup st.pool g = .ok pool

/-- The side condition: the table cap is that of the start, and a create without
an MGID in a class that shares MLIDs comes to the same key with its arguments
turned round. -/
structure MlidStepOk (tcap : MlidTableCap) (st : SaState) (i : SaInput) : Prop where
  cap : i.env.mlidTableCap = tcap
  key : ∀ sp record groupVf args,
    validateSet i.env st i.req = .ok (.create sp record groupVf args) →
    namesNoMgid i.req = true →
    (st.pool.groupClass (findMcGroupClass st.pool record.mGid)).maximumLids ≠ 0 →
    lidClassKey record.mtu record.rate (record.pKey % 256) =
      lidClassKey record.pKey record.mtu record.rate

structure MlidInv (tcap : MlidTableCap) (st : SaState) : Prop where
  pool : PoolInv tcap st.pool st.mcGroups
  num : st.mcGroups.length = st.numMcGroups
  few : st.mcGroups.length ≤ maxMcastMgids

/-! ### The fields that the pool sees of a group -/

theorem SameGroup.groupKey {g g' : McGroup} (h : SameGroup g g') : groupKey g' = groupKey g := by
  rw [Multicast.groupKey, h.pKey, h.mtu, h.rate, Multicast.groupKey]

theorem SameGroup.decommision {g g' : McGroup} (h : SameGroup g g') (p : McPool) :
    smMulticastDecommisionGroup p g' = smMulticastDecommisionGroup p g := by
  unfold smMulticastDecommisionGroup
  rw [h.mGid, h.pKey, h.mtu, h.rate, h.mLid]

theorem SameGroup.carriers {g g' : McGroup} (h : SameGroup g g') (p : McPool)
    (l₁ l₂ : List McGroup) : carriers p (l₁ ++ g' :: l₂) = carriers p (l₁ ++ g :: l₂) := by
  funext ref key lid
  simp only [Multicast.carriers, List.countP_append, List.countP_cons, h.mGid, h.groupKey, h.mLid]

theorem MlidInv.replace {tcap : MlidTableCap} {st : SaState} (h : MlidInv tcap st) {gid : IbGid}
    {g g' : McGroup} (hfind : smFindMulticastGid st.mcGroups gid = some g)
    (hsame : SameGroup g g') :
    MlidInv tcap { st with mcGroups := modifyFirst (sameMgid g) (fun _ => g') st.mcGroups } := by
  obtain ⟨l₁, l₂, hl, hmod, -⟩ := find?_split (smFindMulticastGid_some hfind).2
  have hnum := h.num
  have hfew := h.few
  have hclasses := h.pool.classes
  rw [hl] at hnum hfew hclasses
  refine ⟨⟨fun ref => ?_, fun k hk => ?_⟩, ?_, ?_⟩
  · simp only [hmod, hsame.carriers]
    exact hclasses ref
  · simp only [hmod, List.mem_append, List.mem_cons] at hk
    rcases hk with hk | rfl | hk
    · exact h.pool.range k (by rw [hl]; simp [hk])
    · rw [hsame.mLid]
      exact h.pool.range g (by rw [hl]; simp)
    · exact h.pool.range k (by rw [hl]; simp [hk])
  · simpa [hmod] using hnum
  · simpa [hmod] using hfew

/-! ### Steps and runs -/

theorem mlidInv_initial (tcap : MlidTableCap) (cfg : McPoolConfig) :
    MlidInv tcap { pool := cfg.initial } :=
  ⟨poolInv_initial tcap cfg, rfl, Nat.zero_le _⟩

theorem MlidInv.step {tcap : MlidTableCap} {st st' : SaState} {i : SaInput}
    {effect : Option Effect} (h : MlidInv tcap st) (hok : MlidStepOk tcap st i)
    (hstep : SaStep i.env st i.req st' effect) : MlidInv tcap st' := by
  have hshort : st.mcGroups.length < 0xFFFF := by
    have hfew := h.few
    unfold maxMcastMgids at hfew
    omega
  cases hstep with
  | refused => exact h
  | noLid hset hlid =>
    rw [hok.cap] at hlid
    have hshare := h.pool.tables.shareOk_of_answered hshort hlid
    obtain ⟨p', lid, hrun, -⟩ | ⟨p', e, hrun, hinv, -⟩ := smMulticastAssignLid_spec h.pool hshare
    · rw [hlid] at hrun
      cases hrun
    · rw [hlid] at hrun
      obtain ⟨rfl, -⟩ := Prod.mk.inj (Except.ok.inj hrun)
      exact ⟨hinv, h.num, h.few⟩
  | @created sp record groupVf args pool mLid hset hlid =>
    obtain ⟨sp', record', groupVf', args', heq, hcreate⟩ | ⟨sp', g, heq, -⟩ :=
      validateSet_ok hset
    · cases heq
      rw [hok.cap] at hlid
      have hshare := h.pool.tables.shareOk_of_answered hshort hlid
      obtain ⟨p', lid, hrun, -, -, hinv⟩ | ⟨p', e, hrun, -⟩ :=
        smMulticastAssignLid_spec h.pool hshare
      · rw [hlid] at hrun
        obtain ⟨rfl, hres⟩ := Prod.mk.inj (Except.ok.inj hrun)
        obtain rfl := Except.ok.inj hres
        have hnum := h.num
        have hfew := h.few
        have hroom := hcreate.room
        refine ⟨hinv (newGroup i.req sp record groupVf mLid) rfl rfl (fun hmax => ?_), ?_, ?_⟩
        · have hkey := hok.key _ _ _ _ hset
          cases hcreate.path with
          | nullMgid hnone => exact (hkey hnone hmax).symm
          | mgid _ _ _ => rfl
        · simp [hnum]
        · simp only [List.length_cons]
          omega
      · rw [hlid] at hrun
        cases hrun
    · cases heq
  | @joined sp g hset =>
    obtain ⟨sp', record', groupVf', args', heq, -⟩ | ⟨sp', g', heq, hjoin⟩ :=
      validateSet_ok hset
    · cases heq
    · cases heq
      exact h.replace hjoin.found (joinGroup_same _ _ _)
  | @leftKept g m hdel hkept =>
    exact h.replace (validateDelete_ok hdel).1 (leftGroup_same _ _ _)
  | @leftLast g m pool hdel hgone hpool =>
    obtain ⟨l₁, l₂, hl, -, herase⟩ :=
      find?_split (smFindMulticastGid_some (validateDelete_ok hdel).1).2
    have hperm : st.mcGroups.Perm (g :: st.mcGroups.eraseP (sameMgid g)) := by
      rw [herase, hl]
      exact List.perm_middle
    obtain ⟨p', hrun, hinv⟩ := smMulticastDecommisionGroup_spec h.pool hperm
    rw [(leftGroup_same i.req g m).decommision, hrun] at hpool
    obtain rfl := Except.ok.inj hpool
    have hlen := hperm.length_eq
    have hnum := h.num
    have hfew := h.few
    simp only [List.length_cons] at hlen
    refine ⟨hinv, ?_, ?_⟩
    · simp only
      omega
    · simp only
      omega

theorem recordedUsage_eq {c : McGroupClass} {cnt : LidClassKey → Nat → Nat} (h : ClassInv c cnt)
    (hmax : c.maximumLids ≠ 0) (key : LidClassKey) (lid : Nat) :
    recordedUsage c key lid = cnt key lid := by
  unfold recordedUsage
  cases hget : c.usageMap.lookup key with
  | none =>
    by_contra hne
    exact AssocMap.lookup_eq_none.mp hget
      (h.known hmax key lid (Nat.pos_of_ne_zero fun hzero => hne hzero.symm))
  | some l =>
    have htr := h.tracks key l (AssocMap.mem_of_lookup hget)
    simp only
    cases hfind : findLid l lid with
    | none =>
      by_contra hne
      obtain ⟨i, hi⟩ :=
        findLid_eq_some_of_pos htr (Nat.pos_of_ne_zero fun hzero => hne hzero.symm)
      rw [hfind] at hi
      cases hi
    | some i =>
      obtain ⟨hi, rfl⟩ := findLid_some hfind
      exact htr.holds.counts i hi

theorem MlidInv.accounted {tcap : MlidTableCap} {st : SaState} (h : MlidInv tcap st) :
    MlidsAccounted st := by
  refine ⟨fun ref hmax key lid => recordedUsage_eq (h.pool.classes ref) hmax key lid, ?_, ?_⟩
  · intro g hg hmax
    cases hget : getLidClass (classOf st g) g.pKey g.mtu g.rate with
    | some l => rfl
    | none =>
      have hpos : 0 < carriers st.pool st.mcGroups (findMcGroupClass st.pool g.mGid)
          (groupKey g) g.mLid := List.countP_pos_iff.mpr ⟨g, hg, by simp⟩
      exact absurd ((h.pool.classes _).known hmax _ _ hpos) (AssocMap.lookup_eq_none.mp hget)
  · intro g hg
    obtain ⟨l₁, l₂, hl⟩ := List.append_of_mem hg
    obtain ⟨p', hrun, -⟩ := smMulticastDecommisionGroup_spec h.pool
      (hl ▸ List.perm_middle : st.mcGroups.Perm (g :: (l₁ ++ l₂)))
    exact ⟨p', hrun⟩

/-- In every run whose requests all meet `MlidStepOk`, the pool counts every
group where its deletion looks for it. -/
theorem mlid_accounting_run (tcap : MlidTableCap) (cfg : McPoolConfig) (st : SaState)
    (hreach : Reach saStep (MlidStepOk tcap) { pool := cfg.initial } st) :
    MlidsAccounted st := by
  have hinv : MlidInv tcap st :=
    Reach.invariant (MlidInv tcap) (mlidInv_initial tcap cfg)
      (fun _ _ _ _ hs hok hstep => hs.step hok (saStep_cases hstep)) hreach
  exact hinv.accounted

def fourLidConfig : McPoolConfig := ⟨0, fun _ => { maximumLids := 4, maximum_lt := by decide }⟩

def suitsMlids (tcap : MlidTableCap) (st : SaState) (i : SaInput) : Bool :=
  i.env.mlidTableCap.cap = tcap.cap &&
  match validateSet i.env st i.req with
    | .ok (.create _ record _ _) =>
      lidClassKey record.mtu record.rate (record.pKey % 256) =
        lidClassKey record.pKey record.mtu record.rate
    | _ => true

theorem mlidStepOk_of_suits (tcap : MlidTableCap) (st : SaState) (i : SaInput)
    (h : suitsMlids tcap st i = true) : MlidStepOk tcap st i := by
  unfold suitsMlids at h
  rw [Bool.and_eq_true, decide_eq_true_eq] at h
  constructor
  · have hcap := h.1
    cases hc : i.env.mlidTableCap
    cases tcap
    rw [hc] at hcap
    cases hcap
    rfl
  · intro sp record groupVf args hset _ _
    have hkey := h.2
    rw [hset] at hkey
    exact of_decide_eq_true hkey

/-- The create of the run does not name its MGID. -/
theorem mlid_accounting_run_create :
    ∃ st, (st.mcGroups.map fun g => (groupKey g, g.mcMembers.map McMember.slid)) =
      [(⟨5, 5, 5⟩, [2])] ∧ MlidsAccounted st := by
  have hrun : checkedRun saStep (suitsMlids sixteenLids)
      (fun st => (st.mcGroups.map fun g => (groupKey g, g.mcMembers.map McMember.slid)) =
        [(⟨5, 5, 5⟩, [2])]) { pool := fourLidConfig.initial } memberRun = true := by
    decide +kernel
  obtain ⟨st, hreach, htest⟩ :=
    exists_reach_of_checkedRun (mlidStepOk_of_suits sixteenLids) .start hrun
  exact ⟨st, of_decide_eq_true htest,
    mlid_accounting_run sixteenLids fourLidConfig st hreach⟩

/-- Host 1 creates a group without an MGID: the lid class that holds its MLID is
not the one its deletion will look up. -/
theorem mlid_accounting_null_mgid :
    ∃ st, Reach saStep (fun _ _ => True) { pool := fourLidConfig.initial } st ∧
      ¬ MlidsAccounted st := by
  obtain ⟨st, hreach, htest⟩ := exists_reach_of_holdsAfter saStep
    { pool := fourLidConfig.initial }
    [⟨threeHosts, { createReq 1 with record := { (createReq 1).record with mGid := nullGid } }⟩]
    (fun st => st.mcGroups.any fun g =>
      (classOf st g).maximumLids ≠ 0 ∧
        (getLidClass (classOf st g) g.pKey g.mtu g.rate).isSome = false)
    (by decide +kernel)
  refine ⟨st, hreach, fun hok => ?_⟩
  obtain ⟨g, hg, hbad⟩ := List.any_eq_true.mp htest
  obtain ⟨hmax, hnone⟩ := of_decide_eq_true hbad
  rw [hok.lookup g hg hmax] at hnone
  cases hnone

end OpaFm.Multicast
