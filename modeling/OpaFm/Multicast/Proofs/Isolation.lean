import OpaFm.Multicast.Proofs.SaStep

/-!
# Virtual fabrics and multicast groups

With security on, a member of a group should be a full member of a virtual
fabric that has the group's P_Key and that the group records.  Creation records
virtual fabrics by active position and joins test them by configuration index,
of the requesting port; and creation records every virtual fabric that lists the
MGID, whatever its P_Key.  The results here hold where these agree.
-/

namespace OpaFm.Multicast

open OpaFm.Fabric OpaFm.Lib OpaFm.Partition

/-- A topology with security on, its ports as `smSetupNodeVFs` leaves them. -/
structure SecuredFabric where
  env : SaEnv
  vfs : VirtualFabrics
  security : Nat → Bool
  vfs_eq : env.virtualFabrics = some vfs
  enabled : vfs.securityEnabled = true
  rendered : ∀ vf ∈ vfs.vFabric, vf.security = security vf.index
  ports : ∀ guid p, env.portMap guid = some p → VfSetup security p.data
  lidPorts : ∀ lid p, smFindPortLid env lid = some p → VfSetup security p.data

section

variable (F : SecuredFabric)

def Admitted (g : McGroup) (d : PortData) : Prop :=
  ∃ i vf, F.vfs.vFabric[i]? = some vf ∧ i ∈ g.vfMembers ∧
    pKeyValue g.pKey = pKeyValue vf.pkey ∧ vf.index ∈ d.vfMember ∧ vf.index ∈ d.fullPKeyMember

def Isolated (st : SaState) : Prop :=
  ∀ g ∈ st.mcGroups, ∀ m ∈ g.mcMembers, ∃ p, F.env.portMap m.portGuid = some p ∧
    Admitted F g p.data

/-- Active positions and configuration indices are the same numbers. -/
def IndexAgrees : Prop := ∀ (i : Nat) (vf : VF), F.vfs.vFabric[i]? = some vf → vf.index = i

/-- The side condition: the virtual fabrics that list the MGID of a new group
have its P_Key, and a port that another port joins to a group passes the
full-member test that is made of the requester. -/
structure IsolationStepOk (st : SaState) (req : Mai) : Prop where
  create : ∀ sp record groupVf args,
    validateSet F.env st req = .ok (.create sp record groupVf args) →
    ∀ vf ∈ F.vfs.vFabric, mgidInVF record.mGid vf = true →
      pKeyValue record.pKey = pKeyValue vf.pkey
  join : ∀ sp g, validateSet F.env st req = .ok (.join sp g) →
    sp.reqPort.data = sp.port.data ∨ (g.vfMembers ∩ sp.port.data.fullPKeyMember).Nonempty

/-- A create that names its MGID, by the port itself or by a full member of a
virtual fabric that is recorded. -/
structure CreatesOwn (st : SaState) (req : Mai) : Prop where
  named : namesNoMgid req = false
  own : ∀ sp record groupVf args,
    validateSet F.env st req = .ok (.create sp record groupVf args) →
    sp.reqPort.data = sp.port.data ∨ (groupVf ∩ sp.reqPort.data.fullPKeyMember).Nonempty

def RecordsOwnPKey (g : McGroup) : Prop :=
  ∀ i ∈ g.vfMembers, ∃ vf, F.vfs.vFabric[i]? = some vf ∧ pKeyValue g.pKey = pKeyValue vf.pkey

structure IsolationInv (st : SaState) : Prop where
  isolated : Isolated F st
  recorded : ∀ g ∈ st.mcGroups, RecordsOwnPKey F g

end

section Steps

variable {F : SecuredFabric}

theorem smFindActivePortGuid_some {env : SaEnv} {guid : Nat} {p : ValidPort}
    (h : smFindActivePortGuid env guid = some p) : env.portMap guid = some p := by
  unfold smFindActivePortGuid at h
  exact (Option.filter_eq_some_iff.mp h).1

theorem smFindActivePortLid_some {env : SaEnv} {lid : Nat} {p : ValidPort}
    (h : smFindActivePortLid env lid = some p) : smFindPortLid env lid = some p := by
  unfold smFindActivePortLid at h
  exact (Option.filter_eq_some_iff.mp h).1

theorem full_of_joinVfOk {sp : SetParams} {g : McGroup} (h : joinVfOk F.env sp g = true) :
    (g.vfMembers ∩ sp.reqPort.data.fullPKeyMember).Nonempty := by
  simp only [joinVfOk, F.vfs_eq, F.enabled, Option.all_some, Bool.not_true, Bool.false_or,
    Bool.and_eq_true, decide_eq_true_eq] at h
  exact h.2

theorem createVfs_ok {sp : SetParams} {record : McMemberRecord} {groupVf : Finset Nat}
    (h : createVfs F.env sp record = .ok groupVf) :
    smVFValidateMcGrpCreateParams F.vfs sp.port.data
      (if sp.port.data.guid ≠ sp.reqPort.data.guid then some sp.reqPort.data else none)
      record = some groupVf := by
  simp only [createVfs, F.vfs_eq, F.enabled, ↓reduceIte, orElseStatus_eq_ok] at h
  exact h

theorem full_of_admits {p : ValidPort} {requestor : Option PortData} {record : McMemberRecord}
    {vf : VF} {guid : Nat} (hp : F.env.portMap guid = some p) (hvf : vf ∈ F.vfs.vFabric)
    (h : vfAdmitsCreate p.data requestor record vf = true) :
    vf.index ∈ p.data.vfMember ∧ vf.index ∈ p.data.fullPKeyMember := by
  obtain ⟨-, hmem, -, -, hfull, -, -⟩ := of_decide_eq_true h
  refine ⟨hmem, ?_⟩
  cases hsec : vf.security with
  | true => exact hfull hsec
  | false =>
    refine (F.ports guid p hp).full_of_open _ ?_ hmem
    rw [← F.rendered vf hvf, hsec]

theorem admits_pKey {joiner : PortData} {requestor : Option PortData} {record : McMemberRecord}
    {vf : VF} (h : vfAdmitsCreate joiner requestor record vf = true) :
    pKeyValue record.pKey = pKeyValue vf.pkey :=
  (of_decide_eq_true h).1

theorem newGroup_admitted {req : Mai} {sp : SetParams} {record : McMemberRecord}
    {groupVf : Finset Nat} {guid : Nat} (mLid : Nat) (hp : F.env.portMap guid = some sp.port)
    (hvfs : createVfs F.env sp record = .ok groupVf) :
    Admitted F (newGroup req sp record groupVf mLid) sp.port.data := by
  obtain ⟨⟨i, vf, hi, hget, hadm⟩, -⟩ :=
    smVFValidateMcGrpCreateParams_some F.enabled (createVfs_ok hvfs)
  have hvf : vf ∈ F.vfs.vFabric := List.mem_of_getElem? hget
  obtain ⟨hmem, hfull⟩ := full_of_admits hp hvf hadm
  exact ⟨i, vf, hget, hi, admits_pKey hadm, hmem, hfull⟩

theorem newGroup_recordsOwnPKey {req : Mai} {sp : SetParams} {record : McMemberRecord}
    {groupVf : Finset Nat} (mLid : Nat) (hvfs : createVfs F.env sp record = .ok groupVf)
    (hpkey : ∀ vf ∈ F.vfs.vFabric, mgidInVF record.mGid vf = true →
      pKeyValue record.pKey = pKeyValue vf.pkey) :
    RecordsOwnPKey F (newGroup req sp record groupVf mLid) := by
  intro i hi
  obtain ⟨-, hall⟩ := smVFValidateMcGrpCreateParams_some F.enabled (createVfs_ok hvfs)
  obtain ⟨vf, hget, hmatch | hadm⟩ := hall i hi
  · exact ⟨vf, hget, hpkey vf (List.mem_of_getElem? hget) hmatch⟩
  · exact ⟨vf, hget, admits_pKey hadm⟩

theorem admitted_of_full (hidx : IndexAgrees F) {g : McGroup} (hrec : RecordsOwnPKey F g)
    {p : ValidPort} {guid : Nat} (hp : F.env.portMap guid = some p)
    (hfull : (g.vfMembers ∩ p.data.fullPKeyMember).Nonempty) : Admitted F g p.data := by
  obtain ⟨i, hi⟩ := hfull
  obtain ⟨hin, hfull⟩ := Finset.mem_inter.mp hi
  obtain ⟨vf, hget, hpkey⟩ := hrec i hin
  have hvi := hidx i vf hget
  refine ⟨i, vf, hget, hin, hpkey, ?_, by rwa [hvi]⟩
  rw [hvi]
  exact (F.ports guid p hp).member_of_full i hfull

theorem Admitted.of_same {g g' : McGroup} {d : PortData} (h : Admitted F g d)
    (hsame : SameGroup g g') : Admitted F g' d := by
  obtain ⟨i, vf, hget, hi, hpkey, hmem, hfull⟩ := h
  exact ⟨i, vf, hget, by rwa [hsame.vfMembers], by rwa [hsame.pKey], hmem, hfull⟩

theorem RecordsOwnPKey.of_same {g g' : McGroup} (h : RecordsOwnPKey F g)
    (hsame : SameGroup g g') : RecordsOwnPKey F g' := by
  intro i hi
  rw [hsame.vfMembers] at hi
  rw [hsame.pKey]
  exact h i hi

theorem mem_joinGroup {req : Mai} {sp : SetParams} {g : McGroup} {m : McMember}
    (h : m ∈ (joinGroup req sp g).mcMembers) :
    m ∈ g.mcMembers ∨ m.portGuid = req.record.portGid.interfaceId := by
  unfold joinGroup at h
  split at h
  · rcases List.mem_cons.mp h with rfl | h
    · exact .inr rfl
    · exact .inl h
  · rename_i m₀ hfind
    obtain ⟨l₁, l₂, hl, hmod, -⟩ := find?_split hfind
    simp only [hmod, List.mem_append, List.mem_cons] at h
    rcases h with h | rfl | h
    · exact .inl (by rw [hl]; simp [h])
    · exact .inr rfl
    · exact .inl (by rw [hl]; simp [h])

theorem portGuid_leftGroup {req : Mai} {g : McGroup} {m₀ m : McMember}
    (hfind : smFindMulticastMember g req.record.portGid = some m₀)
    (h : m ∈ (leftGroup req g m₀).mcMembers) : ∃ m' ∈ g.mcMembers, m'.portGuid = m.portGuid := by
  obtain ⟨l₁, l₂, hl, hmod, -⟩ := find?_split hfind
  have hleave : m ∈ (leaveGroup req g m₀).mcMembers := by
    unfold leftGroup at h
    split at h
    · cases h
    · exact h
  unfold leaveGroup at hleave
  simp only at hleave
  split at hleave
  · exact ⟨m, List.mem_of_mem_eraseP hleave, rfl⟩
  · simp only [hmod, List.mem_append, List.mem_cons] at hleave
    rcases hleave with h | rfl | h
    · exact ⟨m, by rw [hl]; simp [h], rfl⟩
    · exact ⟨m₀, by rw [hl]; simp, rfl⟩
    · exact ⟨m, by rw [hl]; simp [h], rfl⟩

theorem IsolationInv.replace {st : SaState} (h : IsolationInv F st) {gid : IbGid}
    {g g' : McGroup} (hfind : smFindMulticastGid st.mcGroups gid = some g)
    (hsame : SameGroup g g')
    (hmem : ∀ m ∈ g'.mcMembers, ∃ p, F.env.portMap m.portGuid = some p ∧ Admitted F g' p.data) :
    IsolationInv F { st with mcGroups := modifyFirst (sameMgid g) (fun _ => g') st.mcGroups } := by
  obtain ⟨l₁, l₂, hl, hmod, -⟩ := find?_split (smFindMulticastGid_some hfind).2
  have hg : g ∈ st.mcGroups := by rw [hl]; simp
  have hall : ∀ k ∈ modifyFirst (sameMgid g) (fun _ => g') st.mcGroups,
      k = g' ∨ k ∈ st.mcGroups := by
    intro k hk
    rw [hmod] at hk
    rw [hl]
    simp only [List.mem_append, List.mem_cons] at hk ⊢
    tauto
  constructor
  · intro k hk
    rcases hall k hk with rfl | hk
    · exact hmem
    · exact h.isolated k hk
  · intro k hk
    rcases hall k hk with rfl | hk
    · exact (h.recorded g hg).of_same hsame
    · exact h.recorded k hk

theorem IsolationInv.step (hidx : IndexAgrees F) {st st' : SaState} {req : Mai}
    {effect : Option Effect} (h : IsolationInv F st) (hok : IsolationStepOk F st req)
    (hstep : SaStep F.env st req st' effect) : IsolationInv F st' := by
  cases hstep with
  | refused => exact h
  | noLid _ _ => exact ⟨h.isolated, h.recorded⟩
  | @created sp record groupVf args pool mLid hset hlid =>
    obtain ⟨sp', record', groupVf', args', heq, hcreate⟩ | ⟨sp', g, heq, -⟩ :=
      validateSet_ok hset
    · cases heq
      have hp := smFindActivePortGuid_some (setChecks_ok hcreate.checks).port
      constructor
      · intro k hk
        rcases List.mem_cons.mp hk with rfl | hk
        · intro m hm
          simp only [newGroup, List.mem_singleton] at hm
          subst hm
          exact ⟨sp.port, hp, newGroup_admitted mLid hp hcreate.vfs⟩
        · exact h.isolated k hk
      · intro k hk
        rcases List.mem_cons.mp hk with rfl | hk
        · exact newGroup_recordsOwnPKey mLid hcreate.vfs (hok.create _ _ _ _ hset)
        · exact h.recorded k hk
    · cases heq
  | @joined sp g hset =>
    obtain ⟨sp', record', groupVf', args', heq, -⟩ | ⟨sp', g', heq, hjoin⟩ :=
      validateSet_ok hset
    · cases heq
    · cases heq
      have hg : g ∈ st.mcGroups := List.mem_of_find?_eq_some hjoin.found
      have hp := smFindActivePortGuid_some (setChecks_ok hjoin.checks).port
      refine h.replace hjoin.found (joinGroup_same _ _ _) (fun m hm => ?_)
      rcases mem_joinGroup hm with hm | hguid
      · obtain ⟨p, hp', hadm⟩ := h.isolated g hg m hm
        exact ⟨p, hp', hadm.of_same (joinGroup_same _ _ _)⟩
      · have hfull : (g.vfMembers ∩ sp.port.data.fullPKeyMember).Nonempty := by
          rcases hok.join _ _ hset with hown | hfull
          · rw [← hown]
            exact full_of_joinVfOk hjoin.vfs
          · exact hfull
        refine ⟨sp.port, by rw [hguid]; exact hp, ?_⟩
        exact (admitted_of_full hidx (h.recorded g hg) hp hfull).of_same (joinGroup_same _ _ _)
  | @leftKept g m hdel hkept =>
    obtain ⟨hfind, hmem, -⟩ := validateDelete_ok hdel
    have hg : g ∈ st.mcGroups := List.mem_of_find?_eq_some hfind
    refine h.replace hfind (leftGroup_same _ _ _) (fun k hk => ?_)
    obtain ⟨k', hk', hguid⟩ := portGuid_leftGroup hmem hk
    obtain ⟨p, hp, hadm⟩ := h.isolated g hg k' hk'
    exact ⟨p, by rw [← hguid]; exact hp, hadm.of_same (leftGroup_same _ _ _)⟩
  | @leftLast g m pool hdel hgone hpool =>
    have hsub : (st.mcGroups.eraseP (sameMgid g)).Sublist st.mcGroups := List.eraseP_sublist
    exact ⟨fun k hk => h.isolated k (hsub.subset hk), fun k hk => h.recorded k (hsub.subset hk)⟩

/-! ## Joining again -/

theorem allowedMtu_le (env : SaEnv) (d : PortData) (v : Nat) : allowedMtu env d v ≤ d.maxVlMtu := by
  unfold allowedMtu
  split
  · exact Nat.le_refl _
  · split <;> omega

theorem requestedMtu_le {env : SaEnv} {req : Mai} {d : PortData} {v m : Nat}
    (h : requestedMtu env req d v = .ok m) : m ≤ d.maxVlMtu := by
  have hmax := allowedMtu_le env d v
  unfold requestedMtu at h
  simp only at h
  split at h
  · split at h <;>
    · rw [bind_eq_ok] at h
      obtain ⟨mtu, -, h⟩ := h
      rw [bind_eq_ok] at h
      obtain ⟨_, hreq, h⟩ := h
      cases h
      have hle := (of_decide_eq_true (require_eq_ok.mp hreq)).2.2
      omega
  · split at h
    · rw [bind_eq_ok] at h
      obtain ⟨-, -, h⟩ := h
      cases h
      exact hmax
    · split at h
      · cases h
        omega
      · cases h
        exact hmax

theorem smallerRate_le (r₁ r₂ : Nat) :
    linkrateToOrdinal (smallerRate r₁ r₂) ≤ linkrateToOrdinal r₁ := by
  unfold smallerRate linkrateLt
  split
  · exact Nat.le_refl _
  · rename_i h
    simp only [decide_eq_true_eq] at h
    omega

theorem allowedRate_le (env : SaEnv) (d : PortData) (v : Nat) :
    linkrateToOrdinal (allowedRate env d v) ≤ linkrateToOrdinal d.rate := by
  unfold allowedRate
  split
  · exact Nat.le_refl _
  · split
    · exact (smallerRate_le _ _).trans (smallerRate_le _ _)
    · exact smallerRate_le _ _

theorem requestedRate_le {env : SaEnv} {req : Mai} {d : PortData} {v r : Nat}
    (h : requestedRate env req d v = .ok r) : linkrateToOrdinal r ≤ linkrateToOrdinal d.rate := by
  have hmax := allowedRate_le env d v
  unfold requestedRate at h
  simp only at h
  split at h
  · split at h <;>
    · rw [bind_eq_ok] at h
      obtain ⟨rate, -, h⟩ := h
      rw [bind_eq_ok] at h
      obtain ⟨_, hreq, h⟩ := h
      cases h
      have hle := (of_decide_eq_true (require_eq_ok.mp hreq)).2.2
      simp only [linkrateGt, decide_eq_true_eq] at hle
      omega
  · split at h
    · rw [bind_eq_ok] at h
      obtain ⟨-, -, h⟩ := h
      cases h
      exact hmax
    · split at h
      · cases h
        exact smallerRate_le _ _
      · cases h
        exact hmax

theorem hasAny_okJoin_of_okCreate {mask : CompMask}
    (h : mask.hasAll CompMask.okCreate = true) : mask.hasAny CompMask.okJoin = true := by
  have hall : mask &&& CompMask.okCreate = CompMask.okCreate := of_decide_eq_true h
  have hbit : (mask &&& CompMask.okCreate).getLsbD 17 = true := by
    rw [hall]
    decide
  rw [BitVec.getLsbD_and, Bool.and_eq_true] at hbit
  refine decide_eq_true (fun hzero => ?_)
  have hclear : (mask &&& CompMask.okJoin).getLsbD 17 = false := by
    rw [hzero]
    rfl
  rw [BitVec.getLsbD_and, hbit.1, Bool.true_and] at hclear
  exact absurd hclear (by decide)

theorem joinChecks_newGroup {req : Mai} {sp : SetParams} {st : SaState}
    {record : McMemberRecord} {groupVf : Finset Nat} {args : AssignArgs} (mLid : Nat)
    (hcreate : CreateOk F.env st req sp record groupVf args)
    (hvfs : joinVfOk F.env sp (newGroup req sp record groupVf mLid) = true) :
    joinChecks F.env req sp (newGroup req sp record groupVf mLid) =
      .ok (.join sp (newGroup req sp record groupVf mLid)) := by
  have hchecked := setChecks_ok hcreate.checks
  obtain ⟨v, hmtu⟩ := hchecked.mtu
  obtain ⟨w, hrate⟩ := hchecked.rate
  have hmtu := requestedMtu_le hmtu
  have hrate := requestedRate_le hrate
  have hrec := hcreate.record_eq
  subst hrec
  have hq : (newGroup req sp (createRecord req sp) groupVf mLid).qKey = sp.qKey := rfl
  have hp : (newGroup req sp (createRecord req sp) groupVf mLid).pKey = req.record.pKey := rfl
  have hs : (newGroup req sp (createRecord req sp) groupVf mLid).sl = req.record.sl := rfl
  have hm : (newGroup req sp (createRecord req sp) groupVf mLid).mtu = sp.mtu := rfl
  have hr : (newGroup req sp (createRecord req sp) groupVf mLid).rate = sp.rate := rfl
  simp only [joinChecks, bind_eq_ok, require_eq_ok, exists_const, Pure.pure, Except.pure,
    and_true]
  refine ⟨hasAny_okJoin_of_okCreate hcreate.components, ?_, ?_, ?_, ?_, ?_, hvfs⟩
  · rw [hq]
    cases hqm : req.mask.hasAny CompMask.qKey with
    | false => rfl
    | true => simp [hchecked.qKey hqm]
  · simp [hp]
  · simp [hs]
  · unfold joinMtuOk
    rw [hm]
    split
    · exact decide_eq_true hmtu
    · exact decide_eq_true ⟨fun hlt => absurd hlt.1 (Nat.lt_irrefl _),
        fun hlt => absurd hlt.1 (Nat.lt_irrefl _), hmtu⟩
  · unfold joinRateOk
    rw [hr]
    simp only [linkrateLt, linkrateGt, decide_eq_true_eq]
    split
    · exact decide_eq_true (by omega)
    · exact decide_eq_true ⟨fun hlt => absurd hlt.1 (Nat.lt_irrefl _),
        fun hlt => absurd hlt.1 (Nat.lt_irrefl _), by omega⟩

theorem joinVfOk_newGroup (hidx : IndexAgrees F) {st : SaState} {req : Mai} {sp : SetParams}
    {record : McMemberRecord} {groupVf : Finset Nat} {args : AssignArgs} (mLid : Nat)
    (hcreate : CreateOk F.env st req sp record groupVf args)
    (hown : sp.reqPort.data = sp.port.data ∨
      (groupVf ∩ sp.reqPort.data.fullPKeyMember).Nonempty) :
    joinVfOk F.env sp (newGroup req sp record groupVf mLid) = true := by
  have hp := smFindActivePortGuid_some (setChecks_ok hcreate.checks).port
  obtain ⟨⟨i, vf, hi, hget, hadm⟩, -⟩ :=
    smVFValidateMcGrpCreateParams_some F.enabled (createVfs_ok hcreate.vfs)
  obtain ⟨hmem, hfull⟩ := full_of_admits hp (List.mem_of_getElem? hget) hadm
  have hvi := hidx i vf hget
  rw [hvi] at hmem hfull
  have hpasses : (groupVf ∩ sp.reqPort.data.vfMember).Nonempty ∧
      (groupVf ∩ sp.reqPort.data.fullPKeyMember).Nonempty := by
    rcases hown with hown | ⟨j, hj⟩
    · rw [hown]
      exact ⟨⟨i, Finset.mem_inter.mpr ⟨hi, hmem⟩⟩, ⟨i, Finset.mem_inter.mpr ⟨hi, hfull⟩⟩⟩
    · obtain ⟨hjg, hjf⟩ := Finset.mem_inter.mp hj
      have hset := F.lidPorts _ _ (smFindActivePortLid_some (setChecks_ok hcreate.checks).reqPort)
      exact ⟨⟨j, Finset.mem_inter.mpr ⟨hjg, hset.member_of_full j hjf⟩⟩, ⟨j, hj⟩⟩
  simp only [joinVfOk, F.vfs_eq, F.enabled, Option.all_some, Bool.not_true, Bool.false_or,
    Bool.and_eq_true, decide_eq_true_eq]
  exact hpasses

theorem validateSet_again (hidx : IndexAgrees F) {st : SaState} {req : Mai} {sp : SetParams}
    {record : McMemberRecord} {groupVf : Finset Nat} {args : AssignArgs}
    (hcreate : CreateOk F.env st req sp record groupVf args) (hnamed : namesNoMgid req = false)
    (hown : sp.reqPort.data = sp.port.data ∨
      (groupVf ∩ sp.reqPort.data.fullPKeyMember).Nonempty) (pool : McPool) (mLid n : Nat) :
    validateSet F.env ⟨pool, newGroup req sp record groupVf mLid :: st.mcGroups, n⟩ req =
      .ok (.join sp (newGroup req sp record groupVf mLid)) := by
  have hjoin := joinChecks_newGroup mLid hcreate (joinVfOk_newGroup hidx mLid hcreate hown)
  have hmgid : (newGroup req sp record groupVf mLid).mGid = req.record.mGid := by
    rw [hcreate.record_eq]
    rfl
  have hfind : smFindMulticastGid (newGroup req sp record groupVf mLid :: st.mcGroups)
      req.record.mGid = some (newGroup req sp record groupVf mLid) := by
    simp [smFindMulticastGid, hmgid]
  simp only [validateSet, bind_eq_ok]
  refine ⟨sp, hcreate.checks, ?_⟩
  rw [if_neg (by simp [hnamed])]
  simp only [hfind]
  exact hjoin

end Steps

theorem saMcMemberRecord_joined {env : SaEnv} {st : SaState} {req : Mai} {sp : SetParams}
    {g : McGroup} (hm : req.method = .set) (h : validateSet env st req = .ok (.join sp g)) :
    ∃ st', saMcMemberRecord env st req = .ok (st', some ⟨madStatusOk, 1⟩, some .joined) := by
  simp only [saMcMemberRecord, saMcMemberRecordHandler, hm, saMcMemberRecordSet, h]
  exact ⟨_, rfl⟩

/-- With security on and the index spaces in agreement, every run whose requests
all meet `IsolationStepOk` keeps groups to the full members of their virtual
fabrics, and whoever has just created a group can join it again. -/
theorem multicast_isolation_run (F : SecuredFabric) (hidx : IndexAgrees F) (pool : McPool)
    (st : SaState)
    (hreach : Reach (saMcMemberRecord F.env) (IsolationStepOk F) { pool := pool } st) :
    Isolated F st ∧
      ∀ req st' reply, CreatesOwn F st req →
        saMcMemberRecord F.env st req = .ok (st', reply, some .created) →
        ∃ st'', saMcMemberRecord F.env st' req =
          .ok (st'', some ⟨madStatusOk, 1⟩, some .joined) := by
  have hinv : IsolationInv F st := by
    refine Reach.invariant (IsolationInv F) ⟨?_, ?_⟩ ?_ hreach
    · intro g hg
      cases hg
    · intro g hg
      cases hg
    · intro s req s' o hs hok hstep
      obtain ⟨reply, effect⟩ := o
      exact hs.step hidx hok (saStep_cases (i := ⟨F.env, req⟩) hstep)
  refine ⟨hinv.isolated, fun req st' reply hown hrun => ?_⟩
  have hm := method_of_created hrun
  cases saStep_cases (i := ⟨F.env, req⟩) hrun with
  | @created sp record groupVf args pool mLid hset hlid =>
    obtain ⟨sp', record', groupVf', args', heq, hcreate⟩ | ⟨sp', g, heq, -⟩ :=
      validateSet_ok hset
    · cases heq
      exact saMcMemberRecord_joined hm
        (validateSet_again hidx hcreate hown.named (hown.own _ _ _ _ hset) _ _ _)
    · cases heq

/-! ## One host in one virtual fabric -/

def memberData (k : Nat) : PortData :=
  { hostData 1 with vfMember := {k}, fullPKeyMember := {k} }

def memberPort (k : Nat) : Port := { hostPort 1 with portData := some (memberData k) }

def memberNode (k : Nat) : Node := { hostNode 1 with port := fun _ => memberPort k }

def oneVf (k : Nat) : VirtualFabrics :=
  { vFabric := [{ index := k, pkey := 0xffff, selectUnmatchedMgid := true }] }

def memberEnv (k : Nat) : SaEnv :=
  { threeHosts with
    nodes := [memberNode k]
    portMap := fun guid => if guid = 1 then some ⟨memberPort k, memberData k, rfl⟩ else none
    virtualFabrics := some (oneVf k) }

theorem memberData_vfSetup (k : Nat) : VfSetup (fun _ => true) (memberData k) where
  member_of_full _ hi := hi
  full_of_open _ hopen _ := absurd hopen (by decide)

theorem memberEnv_lidPort {k lid : Nat} {p : ValidPort}
    (h : smFindPortLid (memberEnv k) lid = some p) : p.data = memberData k := by
  unfold smFindPortLid at h
  split at h
  · cases h
  · obtain ⟨q, hq, hp⟩ := Option.bind_eq_some_iff.mp h
    have hmem : q ∈ [memberPort k] := List.mem_of_find?_eq_some hq
    obtain rfl := List.mem_singleton.mp hmem
    obtain rfl := Option.some.inj hp
    rfl

def memberFabric (k : Nat) : SecuredFabric where
  env := memberEnv k
  vfs := oneVf k
  security := fun _ => true
  vfs_eq := rfl
  enabled := rfl
  rendered vf hvf := by
    obtain rfl := List.mem_singleton.mp hvf
    rfl
  ports guid p hp := by
    simp only [memberEnv] at hp
    split at hp
    · obtain rfl := Option.some.inj hp
      exact memberData_vfSetup k
    · cases hp
  lidPorts lid p hp := by
    rw [memberEnv_lidPort hp]
    exact memberData_vfSetup k

theorem memberFabric_indexAgrees : IndexAgrees (memberFabric 0) := by
  intro i vf hget
  obtain ⟨hlt, rfl⟩ := List.getElem?_eq_some_iff.mp hget
  have hi : i = 0 := Nat.lt_one_iff.mp hlt
  subst hi
  rfl

theorem createsOwn_member (k : Nat) (st : SaState) : CreatesOwn (memberFabric k) st (createReq 1) where
  named := rfl
  own sp record groupVf args hset := by
    obtain ⟨sp', record', groupVf', args', heq, hcreate⟩ | ⟨sp', g, heq, -⟩ := validateSet_ok hset
    · cases heq
      have hchecked := setChecks_ok hcreate.checks
      have hreq := memberEnv_lidPort (smFindActivePortLid_some hchecked.reqPort)
      have hport := smFindActivePortGuid_some hchecked.port
      simp only [memberFabric, memberEnv] at hport
      split at hport
      · obtain hport := Option.some.inj hport
        exact .inl (by rw [hreq, ← hport])
      · cases hport
    · cases heq

theorem isolationStepOk_member (k : Nat) :
    IsolationStepOk (memberFabric k) { pool := sharedPool } (createReq 1) where
  create _ _ _ _ _ vf hvf hin := by
    obtain rfl := List.mem_singleton.mp hvf
    cases hin
  join sp g hset := by
    obtain ⟨_, _, _, _, heq, -⟩ | ⟨_, _, heq, hjoin⟩ := validateSet_ok hset
    · cases heq
    · cases hjoin.found

def createdThen (env : SaEnv) (test : Option Effect → Bool) : Bool :=
  match saMcMemberRecord env { pool := sharedPool } (createReq 1) with
  | .ok (st, _, some .created) =>
    match saMcMemberRecord env st (createReq 1) with
    | .ok (_, _, effect) => test effect
    | .error _ => false
  | _ => false

theorem exists_of_createdThen (env : SaEnv) (test : Option Effect → Bool)
    (h : createdThen env test = true) :
    ∃ st reply, saMcMemberRecord env { pool := sharedPool } (createReq 1) =
        .ok (st, reply, some .created) ∧
      ∃ st' reply' effect, saMcMemberRecord env st (createReq 1) = .ok (st', reply', effect) ∧
        test effect = true := by
  unfold createdThen at h
  split at h
  · rename_i st reply hrun
    split at h
    · rename_i st' reply' effect hagain
      exact ⟨st, reply, hrun, st', reply', effect, hagain, h⟩
    · cases h
  · cases h

/-- Where position and index are both 0, host 1 creates a group, is admitted to
it and may join it again. -/
theorem multicast_isolation_run_again :
    ∃ st reply, saMcMemberRecord (memberEnv 0) { pool := sharedPool } (createReq 1) =
        .ok (st, reply, some .created) ∧ Isolated (memberFabric 0) st ∧
      ∃ st', saMcMemberRecord (memberEnv 0) st (createReq 1) =
        .ok (st', some ⟨madStatusOk, 1⟩, some .joined) := by
  obtain ⟨st, reply, hrun, -⟩ :=
    exists_of_createdThen (memberEnv 0) (fun _ => true) (by decide +kernel)
  have hstart := multicast_isolation_run (memberFabric 0) memberFabric_indexAgrees sharedPool
    { pool := sharedPool } .start
  have hnext := multicast_isolation_run (memberFabric 0) memberFabric_indexAgrees sharedPool st
    (Reach.start.next (isolationStepOk_member 0) hrun)
  exact ⟨st, reply, hrun, hnext.1, hstart.2 _ _ _ (createsOwn_member 0 _) hrun⟩

/-- The active virtual fabric at position 0 has configuration index 1: host 1
creates a group and may not join it again. -/
theorem multicast_isolation_shifted_index :
    ∃ st reply, saMcMemberRecord (memberEnv 1) { pool := sharedPool } (createReq 1) =
        .ok (st, reply, some .created) ∧
      ¬∃ st' reply', saMcMemberRecord (memberEnv 1) st (createReq 1) =
        .ok (st', reply', some .joined) := by
  obtain ⟨st, reply, hrun, st₂, reply₂, effect, hagain, htest⟩ :=
    exists_of_createdThen (memberEnv 1) (fun e => e = none) (by decide +kernel)
  obtain rfl := of_decide_eq_true htest
  refine ⟨st, reply, hrun, ?_⟩
  rintro ⟨st', reply', hjoined⟩
  rw [hagain] at hjoined
  cases hjoined

end OpaFm.Multicast
