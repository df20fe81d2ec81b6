import OpaFm.Fabric.Topology
import OpaFm.Multicast.Group
import Mathlib.Data.Finset.Card

/-!
# Virtual fabrics

The active virtual fabrics of a topology, the membership bits that
`smSetupNodeVFs` leaves on ports, and the tests that multicast requests make
against them.  A virtual fabric has two numbers: its position among the active
ones, and `index`, its position in the configuration.
-/

namespace OpaFm.Partition

open OpaFm.Fabric OpaFm.Multicast

def undefinedXml8 : Nat := 0xff
def defaultPkey : Nat := 0x7fff

/-- `VFAppMgid_t`; the upper word of each MGID comes first. -/
structure VFAppMgid where
  mgid : Nat × Nat
  mgidLast : Nat × Nat := (0, 0)
  mgidMask : Nat × Nat := (0xffffffffffffffff, 0xffffffffffffffff)

structure VF where
  index : Nat
  pkey : Nat
  baseSl : Nat := 0
  respSl : Nat := 0
  mcastSl : Nat := 0xff
  security : Bool := true
  qosEnable : Bool := false
  priority : Nat := 0
  maxMtuInt : Nat := stlMtu8192
  maxRateInt : Nat := ibStaticRate100G
  mgidMap : List VFAppMgid := []
  selectUnmatchedMgid : Bool := false

structure VirtualFabrics where
  securityEnabled : Bool := true
  vFabric : List VF

/-! ## Membership -/

/-- The member lists of a `VFConfig_t`, each name already looked up by
`smGetDgIdx`. -/
structure VFConfig where
  security : Bool
  fullMember : List (Option Nat)
  limitedMember : List (Option Nat)

def maxDevgroups : Nat := 32

/-- `isDgMember`, which reads `dgMemberList`: the first 32 groups of the port. -/
def isDgMember (k : Nat) (d : PortData) : Bool :=
  k ∈ d.dgMember ∧ (d.dgMember.filter (· < k)).card < maxDevgroups

/-- `smProcessVFNodeMembers`, at one live port. -/
def smProcessVFNodeMembers (vfIdx : Nat) (isFullMember : Bool) (d : PortData)
    (dgIdx : Option Nat) : PortData :=
  match dgIdx with
  | none => d
  | some k =>
    if isDgMember k d then
      { d with
        vfMember := insert vfIdx d.vfMember
        fullPKeyMember :=
          if isFullMember then insert vfIdx d.fullPKeyMember else d.fullPKeyMember }
    else d

/-- The body of `smSetupNodeVFs` for one virtual fabric. -/
def setupVF (cfg : Nat → VFConfig) (d : PortData) (vf : VF) : PortData :=
  let c := cfg vf.index
  c.limitedMember.foldl (smProcessVFNodeMembers vf.index (!c.security))
    (c.fullMember.foldl (smProcessVFNodeMembers vf.index true) d)

def smSetupNodeVFs (vfs : VirtualFabrics) (cfg : Nat → VFConfig) (d : PortData) : PortData :=
  vfs.vFabric.foldl (setupVF cfg) d

/-- What the setup leaves on a port: full membership implies membership, and in
a virtual fabric without security every member is a full one. -/
structure VfSetup (security : Nat → Bool) (d : PortData) : Prop where
  member_of_full : ∀ i, i ∈ d.fullPKeyMember → i ∈ d.vfMember
  full_of_open : ∀ i, security i = false → i ∈ d.vfMember → i ∈ d.fullPKeyMember

theorem VfSetup.process {security : Nat → Bool} {d : PortData} (h : VfSetup security d)
    {vfIdx : Nat} {isFullMember : Bool} (hfull : isFullMember = true ∨ security vfIdx = true)
    (dgIdx : Option Nat) : VfSetup security (smProcessVFNodeMembers vfIdx isFullMember d dgIdx) := by
  unfold smProcessVFNodeMembers
  cases dgIdx with
  | none => exact h
  | some k =>
    simp only
    split
    · constructor
      · intro i hi
        cases isFullMember with
        | false => exact Finset.mem_insert_of_mem (h.member_of_full i hi)
        | true =>
          rcases Finset.mem_insert.mp hi with rfl | hi
          · exact Finset.mem_insert_self _ _
          · exact Finset.mem_insert_of_mem (h.member_of_full i hi)
      · intro i hopen hi
        cases isFullMember with
        | false =>
          rcases Finset.mem_insert.mp hi with rfl | hi
          · simp [hopen] at hfull
          · exact h.full_of_open i hopen hi
        | true =>
          rcases Finset.mem_insert.mp hi with rfl | hi
          · exact Finset.mem_insert_self _ _
          · exact Finset.mem_insert_of_mem (h.full_of_open i hopen hi)
    · exact h

theorem VfSetup.foldl_process {security : Nat → Bool} {vfIdx : Nat} {isFullMember : Bool}
    (hfull : isFullMember = true ∨ security vfIdx = true) (members : List (Option Nat))
    {d : PortData} (h : VfSetup security d) :
    VfSetup security (members.foldl (smProcessVFNodeMembers vfIdx isFullMember) d) := by
  induction members generalizing d with
  | nil => exact h
  | cons m ms ih => exact ih (h.process hfull m)

theorem VfSetup.foldl_setup (cfg : Nat → VFConfig) (vfs : List VF) {d : PortData}
    (h : VfSetup (fun i => (cfg i).security) d) :
    VfSetup (fun i => (cfg i).security) (vfs.foldl (setupVF cfg) d) := by
  induction vfs generalizing d with
  | nil => exact h
  | cons vf vfs ih =>
    refine ih (VfSetup.foldl_process ?_ _ (VfSetup.foldl_process (.inl rfl) _ h))
    cases (cfg vf.index).security <;> simp

/-- `smSetupNodeVFs` establishes `VfSetup` on a port that starts with no bits. -/
theorem smSetupNodeVFs_vfSetup (vfs : VirtualFabrics) (cfg : Nat → VFConfig) (d : PortData) :
    VfSetup (fun i => (cfg i).security)
      (smSetupNodeVFs vfs cfg { d with vfMember := ∅, fullPKeyMember := ∅ }) :=
  VfSetup.foldl_setup cfg vfs.vFabric ⟨by simp, by simp⟩

/-! ## Multicast requests -/

def mgidMatch (mgid : Nat × Nat) (app : VFAppMgid) : Bool :=
  if app.mgidLast.1 ≠ 0 ∨ app.mgidLast.2 ≠ 0 then
    ¬(mgid.1 < app.mgid.1) ∧ ¬(mgid.1 = app.mgid.1 ∧ mgid.2 < app.mgid.2) ∧
      ¬(app.mgidLast.1 < mgid.1) ∧ ¬(mgid.1 = app.mgidLast.1 ∧ app.mgidLast.2 < mgid.2)
  else
    mgid.1 &&& app.mgidMask.1 = app.mgid.1 ∧ mgid.2 &&& app.mgidMask.2 = app.mgid.2

def gidWords (gid : IbGid) : Nat × Nat := (gid.subnetPrefix, gid.interfaceId)

def mgidInVF (gid : IbGid) (vf : VF) : Bool := vf.mgidMap.any (mgidMatch (gidWords gid))

/-- The tests that `smVFValidateMcGrpCreateParams` makes of one virtual fabric
before it looks at the applications. -/
def vfAdmitsCreate (joiner : PortData) (requestor : Option PortData) (rec : McMemberRecord)
    (vf : VF) : Bool :=
  pKeyValue rec.pKey = pKeyValue vf.pkey ∧
    vf.index ∈ joiner.vfMember ∧
    (∀ r ∈ requestor, vf.index ∈ r.vfMember) ∧
    rec.sl = (if vf.mcastSl ≠ undefinedXml8 then vf.mcastSl else vf.baseSl) ∧
    (vf.security = true → vf.index ∈ joiner.fullPKeyMember) ∧
    rec.mtu ≤ vf.maxMtuInt ∧ ¬linkrateGt rec.rate vf.maxRateInt

def positions (vfs : List VF) (test : VF → Bool) : Finset Nat :=
  (Finset.range vfs.length).filter fun i => (vfs[i]?.any test) = true

/-- `smVFValidateMcGrpCreateParams`: the positions to record in the group, or
`none` when no virtual fabric admits the group. -/
def smVFValidateMcGrpCreateParams (vfs : VirtualFabrics) (joiner : PortData)
    (requestor : Option PortData) (rec : McMemberRecord) : Option (Finset Nat) :=
  if ¬vfs.securityEnabled then
    if pKeyValue rec.pKey = defaultPkey then some ∅ else none
  else
    let admits := vfAdmitsCreate joiner requestor rec
    let unmatchedAll := positions vfs.vFabric fun vf => admits vf && vf.selectUnmatchedMgid
    if vfs.vFabric.any fun vf => admits vf && mgidInVF rec.mGid vf then
      some (positions vfs.vFabric (mgidInVF rec.mGid))
    else if ¬(vfs.vFabric.any (mgidInVF rec.mGid)) ∧ unmatchedAll.Nonempty then
      some unmatchedAll
    else none

/-- What `smGetVfMaxMtu` has gathered so far. -/
structure VfMax where
  mtu : Nat := 0
  rate : Nat := 0
  unmatchedMtu : Nat := 0
  unmatchedRate : Nat := 0
  mgidFound : Bool := false

def largerRate (r₁ r₂ : Nat) : Nat := if linkrateLt r₁ r₂ then r₂ else r₁

def vfMaxStep (joiner requestor : PortData) (rec : McMemberRecord) (m : VfMax) (vf : VF) :
    VfMax :=
  if pKeyValue rec.pKey = pKeyValue vf.pkey ∧ (rec.sl = vf.baseSl ∨ rec.sl = vf.respSl) ∧
      vf.index ∈ joiner.vfMember ∧ vf.index ∈ requestor.vfMember ∧
      (vf.security = true → vf.index ∈ joiner.fullPKeyMember) then
    let m := if mgidInVF rec.mGid vf then
        { m with
          mtu := max m.mtu vf.maxMtuInt
          rate := largerRate m.rate vf.maxRateInt
          mgidFound := true }
      else m
    if m.mgidFound ∨ ¬vf.selectUnmatchedMgid then m
    else
      { m with
        unmatchedMtu := max m.unmatchedMtu vf.maxMtuInt
        unmatchedRate := largerRate m.unmatchedRate vf.maxRateInt }
  else m

/-- `smGetVfMaxMtu`: the largest MTU and rate, zero when there is none. -/
def smGetVfMaxMtu (vfs : Option VirtualFabrics) (joiner requestor : PortData)
    (rec : McMemberRecord) : Nat × Nat :=
  match vfs with
  | none => (0, 0)
  | some vfs =>
    let m := vfs.vFabric.foldl (vfMaxStep joiner requestor rec) {}
    if m.mgidFound then (m.mtu, m.rate) else (m.unmatchedMtu, m.unmatchedRate)

theorem mem_positions {vfs : List VF} {test : VF → Bool} {i : Nat} :
    i ∈ positions vfs test ↔ ∃ vf, vfs[i]? = some vf ∧ test vf = true := by
  simp only [positions, Finset.mem_filter, Finset.mem_range]
  constructor
  · rintro ⟨hlt, h⟩
    exact ⟨vfs[i], List.getElem?_eq_getElem hlt, by simpa [List.getElem?_eq_getElem hlt] using h⟩
  · rintro ⟨vf, hget, ht⟩
    obtain ⟨hlt, -⟩ := List.getElem?_eq_some_iff.mp hget
    exact ⟨hlt, by simp [hget, ht]⟩

/-- A group is only admitted by a virtual fabric that admits its creator, and
that one is recorded. -/
theorem smVFValidateMcGrpCreateParams_some {vfs : VirtualFabrics} {joiner : PortData}
    {requestor : Option PortData} {rec : McMemberRecord} {groupVf : Finset Nat}
    (hsec : vfs.securityEnabled = true)
    (h : smVFValidateMcGrpCreateParams vfs joiner requestor rec = some groupVf) :
    (∃ i vf, i ∈ groupVf ∧ vfs.vFabric[i]? = some vf ∧
      vfAdmitsCreate joiner requestor rec vf = true) ∧
    ∀ i ∈ groupVf, ∃ vf, vfs.vFabric[i]? = some vf ∧
      (mgidInVF rec.mGid vf = true ∨ vfAdmitsCreate joiner requestor rec vf = true) := by
  unfold smVFValidateMcGrpCreateParams at h
  simp only [hsec, not_true_eq_false, ↓reduceIte] at h
  split at h
  · rename_i hany
    obtain rfl := Option.some.inj h
    obtain ⟨vf, hvf, hboth⟩ := List.any_eq_true.mp hany
    rw [Bool.and_eq_true] at hboth
    obtain ⟨i, hi, rfl⟩ := List.getElem_of_mem hvf
    refine ⟨⟨i, vfs.vFabric[i], mem_positions.mpr ⟨_, List.getElem?_eq_getElem hi, hboth.2⟩,
      List.getElem?_eq_getElem hi, hboth.1⟩, fun j hj => ?_⟩
    obtain ⟨vf', hget, htest⟩ := mem_positions.mp hj
    exact ⟨vf', hget, .inl htest⟩
  · split at h
    · rename_i hun
      obtain rfl := Option.some.inj h
      obtain ⟨i, hi⟩ := hun.2
      obtain ⟨vf, hget, htest⟩ := mem_positions.mp hi
      rw [Bool.and_eq_true] at htest
      refine ⟨⟨i, vf, hi, hget, htest.1⟩, fun j hj => ?_⟩
      obtain ⟨vf', hget', htest'⟩ := mem_positions.mp hj
      rw [Bool.and_eq_true] at htest'
      exact ⟨vf', hget', .inr htest'.1⟩
    · cases h

/-!
## Service IDs of virtual fabrics

A path request that names a service is answered from the virtual fabrics whose applications
list it.  Those that take unmatched services come in only when no virtual fabric lists it.
-/

open OpaFm.Fabric

def maxVfabrics : Nat := 32
def stlMaxSls : Nat := 32
def undefinedXml64 : Nat := 0xffffffffffffffff

structure VFAppSid where
  serviceId : Nat
  serviceIdLast : Nat := 0
  serviceIdMask : Nat := undefinedXml64

/-- A virtual fabric with the service IDs of its applications. -/
structure ServiceVF extends VF where
  sidMap : List VFAppSid := []
  selectUnmatchedSid : Bool := false

/-- `VirtualFabrics_t`, whose array holds `MAX_VFABRICS`. -/
structure ServiceVFs where
  vFabric : List ServiceVF
  length_le : vFabric.length ≤ maxVfabrics

/-- A port as a path request names it; `addr` stands for the pointer to it. -/
structure PathPort where
  addr : Nat
  portData : PortData

def sidMatch (serviceId : Nat) (app : VFAppSid) : Bool :=
  (app.serviceIdLast = 0 ∧ serviceId = app.serviceId) ∨
    (app.serviceId ≤ serviceId ∧ serviceId ≤ app.serviceIdLast) ∨
    serviceId &&& app.serviceIdMask = app.serviceId &&& app.serviceIdMask

/-- `smCheckServiceId`: the service ID is listed by an application. -/
def smCheckServiceId (vf : ServiceVF) (serviceId : Nat) : Bool :=
  vf.sidMap.any (sidMatch serviceId)

/-- `smVFValidateVfServiceId`, true for `VSTATUS_OK`; `vf` is a position in the array. -/
def smVFValidateVfServiceId (vfs : ServiceVFs) (vf : Nat) (serviceId : Nat) : Bool :=
  match vfs.vFabric[vf]? with
  | none => false
  | some v =>
    if smCheckServiceId v serviceId then true
    else if ¬v.selectUnmatchedSid then false
    else if (vfs.vFabric.take maxVfabrics).any (smCheckServiceId · serviceId) then false
    else true

/-- What a path request asks of a virtual fabric besides the service. -/
structure PathFilter where
  srcport : PathPort
  dstport : PathPort
  pkey : Nat
  reqSL : Nat
  respSL : Nat

/-- The tests that `smGetValidatedServiceIDVFs` and `smGetValidatedVFs` share. -/
def PathFilter.admits (f : PathFilter) (vf : ServiceVF) : Bool :=
  if f.pkey ≠ 0 ∧ pKeyValue f.pkey ≠ pKeyValue vf.pkey then false
  else if f.srcport.addr ≠ f.dstport.addr ∧ vf.index ∉ f.srcport.portData.fullPKeyMember ∧
      vf.index ∉ f.dstport.portData.fullPKeyMember then false
  else if vf.index ∉ f.srcport.portData.vfMember then false
  else if vf.index ∉ f.dstport.portData.vfMember then false
  else if f.reqSL < stlMaxSls ∧ f.reqSL ≠ vf.baseSl then false
  else if f.respSL < stlMaxSls ∧ f.respSL ≠ vf.respSl then false
  else true

structure SidSearch where
  vfs : Finset Nat
  appFound : Bool := false

/-- The loop body of `smGetValidatedServiceIDVFs`, for the virtual fabric `x.1` at `x.2`. -/
def sidSearchStep (f : PathFilter) (serviceId : Nat) (s : SidSearch) (x : ServiceVF × Nat) :
    SidSearch :=
  let srvIdInVF := smCheckServiceId x.1 serviceId
  -- the first explicit match clears what was taken for unmatched services
  let s := if srvIdInVF ∧ ¬s.appFound then ⟨∅, true⟩ else s
  if s.appFound ∧ ¬srvIdInVF then s
  else if ¬s.appFound ∧ ¬x.1.selectUnmatchedSid then s
  else if f.admits x.1 then { s with vfs := insert x.2 s.vfs }
  else s

def smGetValidatedServiceIDVFs (vfs : ServiceVFs) (f : PathFilter) (serviceId : Nat)
    (found : Finset Nat) : Finset Nat :=
  ((vfs.vFabric.take maxVfabrics).zipIdx.foldl (sidSearchStep f serviceId) ⟨found, false⟩).vfs

def selectVf (test : ServiceVF → Bool) (found : Finset Nat) (x : ServiceVF × Nat) : Finset Nat :=
  if test x.1 then insert x.2 found else found

def smGetValidatedVFs (vfs : ServiceVFs) (f : PathFilter) (found : Finset Nat) : Finset Nat :=
  vfs.vFabric.zipIdx.foldl (selectVf f.admits) found

end OpaFm.Partition
