import OpaFm.Lib.Run
import OpaFm.Multicast.McMemberRecord

/-!
# What one McMemberRecord request can do

Every answered request is one of six steps: it is refused, it fails for want of
an MLID, it creates a group, joins one, leaves one that stays, or leaves one that
goes.  The invariants of the store are proved by going through these.
-/

namespace OpaFm.Multicast

open OpaFm.Fabric OpaFm.Lib OpaFm.Partition

/-! ## The checks -/

theorem require_eq_ok {cond : Bool} {status : Nat} {u : Unit} :
    require cond status = .ok u ↔ cond = true := by
  unfold require
  cases cond <;> simp

theorem orElseStatus_eq_ok {α : Type} {x : Option α} {status : Nat} {a : α} :
    orElseStatus x status = .ok a ↔ x = some a := by
  unfold orElseStatus
  cases x <;> simp

theorem leaveIf_eq_ok {cond : Bool} {u : Unit} : leaveIf cond = .ok u ↔ cond = false := by
  unfold leaveIf
  cases cond <;> simp

inductive CreatePath (st : SaState) (req : Mai) (record : McMemberRecord) : AssignArgs → Prop
  | nullMgid (h : namesNoMgid req = true) :
      CreatePath st req record ⟨record.mtu, record.rate, record.pKey % 256⟩
  | mgid (h : namesNoMgid req = false) (hvalid : smMulticastGidValid req.record.mGid = true)
      (hfree : smFindMulticastGid st.mcGroups req.record.mGid = none) :
      CreatePath st req record ⟨record.pKey, record.mtu, record.rate⟩

structure CreateOk (env : SaEnv) (st : SaState) (req : Mai) (sp : SetParams)
    (record : McMemberRecord) (groupVf : Finset Nat) (args : AssignArgs) : Prop where
  checks : setChecks env req = .ok sp
  record_eq : record = createRecord req sp
  components : req.mask.hasAll CompMask.okCreate = true
  full : req.record.joinFullMember = true
  room : st.numMcGroups ≠ maxMcastMgids
  vfs : createVfs env sp record = .ok groupVf
  path : CreatePath st req record args

structure JoinOk (env : SaEnv) (st : SaState) (req : Mai) (sp : SetParams) (g : McGroup) :
    Prop where
  checks : setChecks env req = .ok sp
  named : namesNoMgid req = false
  found : smFindMulticastGid st.mcGroups req.record.mGid = some g
  vfs : joinVfOk env sp g = true

theorem nullMgidCreate_ok {env : SaEnv} {st : SaState} {req : Mai} {sp : SetParams}
    {a : SetAction} (h : nullMgidCreate env st req sp = .ok a) (hnone : namesNoMgid req = true)
    (hchecks : setChecks env req = .ok sp) :
    ∃ record groupVf args, a = .create sp record groupVf args ∧
      CreateOk env st req sp record groupVf args := by
  simp only [nullMgidCreate, bind_eq_ok, require_eq_ok, exists_const, Pure.pure, Except.pure,
    Except.ok.injEq] at h
  obtain ⟨hcomp, hfull, hroom, -, groupVf, hvfs, rfl⟩ := h
  exact ⟨_, groupVf, _, rfl, hchecks, rfl, hcomp, hfull, by simpa using hroom, hvfs,
    .nullMgid hnone⟩

theorem mgidCreate_ok {env : SaEnv} {st : SaState} {req : Mai} {sp : SetParams}
    {a : SetAction} (h : mgidCreate env st req sp = .ok a) (hnamed : namesNoMgid req = false)
    (hfree : smFindMulticastGid st.mcGroups req.record.mGid = none)
    (hchecks : setChecks env req = .ok sp) :
    ∃ record groupVf args, a = .create sp record groupVf args ∧
      CreateOk env st req sp record groupVf args := by
  simp only [mgidCreate, bind_eq_ok, require_eq_ok, exists_const, Pure.pure, Except.pure,
    Except.ok.injEq] at h
  obtain ⟨hvalid, hcomp, hfull, hroom, groupVf, hvfs, rfl⟩ := h
  exact ⟨_, groupVf, _, rfl, hchecks, rfl, hcomp, hfull, by simpa using hroom, hvfs,
    .mgid hnamed hvalid hfree⟩

theorem joinChecks_ok {env : SaEnv} {st : SaState} {req : Mai} {sp : SetParams} {g : McGroup}
    {a : SetAction} (h : joinChecks env req sp g = .ok a) (hnamed : namesNoMgid req = false)
    (hfound : smFindMulticastGid st.mcGroups req.record.mGid = some g)
    (hchecks : setChecks env req = .ok sp) : a = .join sp g ∧ JoinOk env st req sp g := by
  simp only [joinChecks, bind_eq_ok, require_eq_ok, exists_const, Pure.pure, Except.pure,
    Except.ok.injEq] at h
  obtain ⟨-, -, -, -, -, -, hvfs, rfl⟩ := h
  exact ⟨rfl, hchecks, hnamed, hfound, hvfs⟩

structure SetChecked (env : SaEnv) (req : Mai) (sp : SetParams) : Prop where
  reqPort : smFindActivePortLid env req.slid = some sp.reqPort
  port : smFindActivePortGuid env req.record.portGid.interfaceId = some sp.port
  mtu : ∃ vfMaxMtu, requestedMtu env req sp.port.data vfMaxMtu = .ok sp.mtu
  rate : ∃ vfMaxRate, requestedRate env req sp.port.data vfMaxRate = .ok sp.rate
  qKey : req.mask.hasAny CompMask.qKey = true → sp.qKey = req.record.qKey
  joins : req.record.getJoinState ≠ 0

theorem setChecks_ok {env : SaEnv} {req : Mai} {sp : SetParams}
    (h : setChecks env req = .ok sp) : SetChecked env req sp := by
  simp only [setChecks, setLinkChecks, setPorts, bind_eq_ok, require_eq_ok, orElseStatus_eq_ok,
    exists_const, Pure.pure, Except.pure, Except.ok.injEq] at h
  obtain ⟨⟨port, reqPort, mtu, rate⟩,
    ⟨⟨port', reqPort'⟩, ⟨-, -, r, hreq, -, -, p, hport, heq⟩, m, hmtu, q, hrate, heq'⟩,
    life, -, -, hjoin, rfl⟩ := h
  obtain ⟨rfl, rfl⟩ := Prod.mk.inj heq
  simp only [Prod.mk.injEq] at heq'
  obtain ⟨rfl, rfl, rfl, rfl⟩ := heq'
  exact ⟨hreq, hport, ⟨_, hmtu⟩, ⟨_, hrate⟩, fun hq => if_pos hq, by simpa using hjoin⟩

theorem validateSet_ok {env : SaEnv} {st : SaState} {req : Mai} {a : SetAction}
    (h : validateSet env st req = .ok a) :
    (∃ sp record groupVf args, a = .create sp record groupVf args ∧
      CreateOk env st req sp record groupVf args) ∨
    (∃ sp g, a = .join sp g ∧ JoinOk env st req sp g) := by
  rw [validateSet, bind_eq_ok] at h
  obtain ⟨sp, hchecks, h⟩ := h
  cases hnamed : namesNoMgid req with
  | true =>
    rw [hnamed, if_pos rfl] at h
    exact .inl ⟨sp, nullMgidCreate_ok h hnamed hchecks⟩
  | false =>
    rw [hnamed, if_neg Bool.false_ne_true] at h
    cases hfind : smFindMulticastGid st.mcGroups req.record.mGid with
    | none =>
      rw [hfind] at h
      exact .inl ⟨sp, mgidCreate_ok h hnamed hfind hchecks⟩
    | some g =>
      rw [hfind] at h
      exact .inr ⟨sp, g, joinChecks_ok h hnamed hfind hchecks⟩

theorem validateDelete_ok {env : SaEnv} {st : SaState} {req : Mai} {g : McGroup} {m : McMember}
    (h : validateDelete env st req = .ok (g, m)) :
    smFindMulticastGid st.mcGroups req.record.mGid = some g ∧
      smFindMulticastMember g req.record.portGid = some m ∧
      m.state &&& req.record.getJoinState ≠ 0 := by
  simp only [validateDelete, bind_eq_ok, deleteMember, orElseStatus_eq_ok, require_eq_ok,
    leaveIf_eq_ok] at h
  obtain ⟨⟨port, sender⟩, -, ⟨g', m'⟩, ⟨g₁, hfind, m₁, hmem, -, hstate, -, -, heq⟩, -, -, heq'⟩ := h
  obtain ⟨rfl, rfl⟩ := Prod.mk.inj (Except.ok.inj heq)
  obtain ⟨rfl, rfl⟩ := Prod.mk.inj (Except.ok.inj heq')
  exact ⟨hfind, hmem, (of_decide_eq_true hstate).1⟩

theorem smFindMulticastGid_some {groups : List McGroup} {gid : IbGid} {g : McGroup}
    (h : smFindMulticastGid groups gid = some g) :
    g.mGid = gid ∧ groups.find? (sameMgid g) = some g := by
  have hgid : g.mGid = gid := by simpa using List.find?_some h
  refine ⟨hgid, ?_⟩
  unfold sameMgid
  rw [hgid]
  exact h

theorem smFindMulticastGid_none {groups : List McGroup} {gid : IbGid}
    (h : smFindMulticastGid groups gid = none) : gid ∉ groups.map McGroup.mGid := by
  intro hmem
  obtain ⟨g, hg, hgid⟩ := List.mem_map.mp hmem
  exact absurd (List.find?_eq_none.mp h g hg) (by simp [hgid])

/-! ## What joins and leaves keep of a group -/

structure SameGroup (g g' : McGroup) : Prop where
  mGid : g'.mGid = g.mGid
  pKey : g'.pKey = g.pKey
  mtu : g'.mtu = g.mtu
  rate : g'.rate = g.rate
  mLid : g'.mLid = g.mLid
  vfMembers : g'.vfMembers = g.vfMembers

theorem joinGroup_same (req : Mai) (sp : SetParams) (g : McGroup) :
    SameGroup g (joinGroup req sp g) := by
  unfold joinGroup
  split <;> exact ⟨rfl, rfl, rfl, rfl, rfl, rfl⟩

theorem leaveGroup_same (req : Mai) (g : McGroup) (m : McMember) :
    SameGroup g (leaveGroup req g m) := by
  unfold leaveGroup
  simp only
  split <;> exact ⟨rfl, rfl, rfl, rfl, rfl, rfl⟩

theorem leftGroup_same (req : Mai) (g : McGroup) (m : McMember) :
    SameGroup g (leftGroup req g m) := by
  have h := leaveGroup_same req g m
  unfold leftGroup
  split
  · exact ⟨h.mGid, h.pKey, h.mtu, h.rate, h.mLid, h.vfMembers⟩
  · exact h

/-! ## The steps -/

inductive SaStep (env : SaEnv) (st : SaState) (req : Mai) : SaState → Option Effect → Prop
  | refused : SaStep env st req st none
  | noLid {sp record groupVf args pool e}
      (hset : validateSet env st req = .ok (.create sp record groupVf args))
      (hlid : smMulticastAssignLid env.mlidTableCap st.pool st.mcGroups record.mGid
        args.pKey args.mtu args.rate = .ok (pool, .error e)) :
      SaStep env st req { st with pool := pool } none
  | created {sp record groupVf args pool mLid}
      (hset : validateSet env st req = .ok (.create sp record groupVf args))
      (hlid : smMulticastAssignLid env.mlidTableCap st.pool st.mcGroups record.mGid
        args.pKey args.mtu args.rate = .ok (pool, .ok mLid)) :
      SaStep env st req
        ⟨pool, newGroup req sp record groupVf mLid :: st.mcGroups, st.numMcGroups + 1⟩
        (some .created)
  | joined {sp g} (hset : validateSet env st req = .ok (.join sp g)) :
      SaStep env st req
        { st with mcGroups := modifyFirst (sameMgid g) (fun _ => joinGroup req sp g) st.mcGroups }
        (some .joined)
  | leftKept {g m} (hdel : validateDelete env st req = .ok (g, m))
      (hkept : (leftGroup req g m).mcMembers ≠ []) :
      SaStep env st req
        { st with mcGroups := modifyFirst (sameMgid g) (fun _ => leftGroup req g m) st.mcGroups }
        (some .left)
  | leftLast {g m pool} (hdel : validateDelete env st req = .ok (g, m))
      (hgone : (leftGroup req g m).mcMembers = [])
      (hpool : smMulticastDecommisionGroup st.pool (leftGroup req g m) = .ok pool) :
      SaStep env st req
        ⟨pool, st.mcGroups.eraseP (sameMgid g), st.numMcGroups - 1⟩ (some .left)

theorem saMcMemberRecordSet_step {env : SaEnv} {st st' : SaState} {req : Mai} {o : Outcome}
    (h : saMcMemberRecordSet env st req = .ok (st', o)) : SaStep env st req st' o.effect := by
  unfold saMcMemberRecordSet at h
  cases hset : validateSet env st req with
  | error status =>
    rw [hset] at h
    obtain ⟨rfl, rfl⟩ := Prod.mk.inj (Except.ok.inj h)
    exact .refused
  | ok a =>
    rw [hset] at h
    cases a with
    | create sp record groupVf args =>
      simp only [bind_eq_ok] at h
      obtain ⟨⟨pool, r⟩, hlid, h⟩ := h
      cases r with
      | error e =>
        obtain ⟨rfl, rfl⟩ := Prod.mk.inj (Except.ok.inj h)
        exact .noLid hset hlid
      | ok mLid =>
        obtain ⟨rfl, rfl⟩ := Prod.mk.inj (Except.ok.inj h)
        exact .created hset hlid
    | join sp g =>
      obtain ⟨rfl, rfl⟩ := Prod.mk.inj (Except.ok.inj h)
      exact .joined hset

theorem saMcMemberRecordDelete_step {env : SaEnv} {st st' : SaState} {req : Mai} {o : Outcome}
    (h : saMcMemberRecordDelete env st req = .ok (st', o)) : SaStep env st req st' o.effect := by
  unfold saMcMemberRecordDelete at h
  cases hdel : validateDelete env st req with
  | error status =>
    rw [hdel] at h
    obtain ⟨rfl, rfl⟩ := Prod.mk.inj (Except.ok.inj h)
    exact .refused
  | ok gm =>
    obtain ⟨g, m⟩ := gm
    rw [hdel] at h
    simp only at h
    by_cases hgone : (leftGroup req g m).mcMembers = []
    · rw [if_pos hgone, bind_eq_ok] at h
      obtain ⟨pool, hpool, h⟩ := h
      obtain ⟨rfl, rfl⟩ := Prod.mk.inj (Except.ok.inj h)
      exact .leftLast hdel hgone hpool
    · rw [if_neg hgone] at h
      obtain ⟨rfl, rfl⟩ := Prod.mk.inj (Except.ok.inj h)
      exact .leftKept hdel hgone

structure SaInput where
  env : SaEnv
  req : Mai

def saStep (st : SaState) (i : SaInput) : Except Fault (SaState × Option Reply × Option Effect) :=
  saMcMemberRecord i.env st i.req

theorem saStep_cases {st st' : SaState} {i : SaInput} {reply : Option Reply}
    {effect : Option Effect} (h : saStep st i = .ok (st', reply, effect)) :
    SaStep i.env st i.req st' effect := by
  unfold saStep saMcMemberRecord at h
  rw [bind_eq_ok] at h
  obtain ⟨⟨st₁, o⟩, hrun, h⟩ := h
  obtain ⟨rfl, hrest⟩ := Prod.mk.inj (Except.ok.inj h)
  obtain ⟨-, rfl⟩ := Prod.mk.inj hrest
  unfold saMcMemberRecordHandler at hrun
  cases hm : i.req.method with
  | set =>
    rw [hm] at hrun
    exact saMcMemberRecordSet_step hrun
  | delete =>
    rw [hm] at hrun
    exact saMcMemberRecordDelete_step hrun

theorem method_of_created {env : SaEnv} {st st' : SaState} {req : Mai} {reply : Option Reply}
    (h : saMcMemberRecord env st req = .ok (st', reply, some .created)) : req.method = .set := by
  cases hm : req.method with
  | set => rfl
  | delete =>
    simp only [saMcMemberRecord, saMcMemberRecordHandler, hm, bind_eq_ok] at h
    obtain ⟨⟨st₁, o⟩, hrun, h⟩ := h
    have heffect : o.effect = some .created :=
      (Prod.mk.inj (Prod.mk.inj (Except.ok.inj h)).2).2
    unfold saMcMemberRecordDelete at hrun
    split at hrun
    · cases hrun
      cases heffect
    · split at hrun
      · rw [bind_eq_ok] at hrun
        obtain ⟨pool, -, hrun⟩ := hrun
        cases hrun
        cases heffect
      · cases hrun
        cases heffect

/-! ## A fabric of three hosts, for runs on fixed inputs -/

def hostData (k : Nat) : PortData := { guid := k, lid := k, maxVlMtu := stlMtu8192 }

def hostPort (k : Nat) : Port := { index := 1, state := .active, portData := some (hostData k) }

def hostNode (k : Nat) : Node :=
  { index := k
    nodeType := .ca
    numPorts := 1
    nodeGuid := k
    port := fun i => if i = 1 then hostPort k else { index := i } }

def hostPrefix : Nat := 0xfe80000000000000

/-- Hosts 1, 2 and 3, each with its number for GUID and LID, and no virtual
fabrics. -/
def threeHosts : SaEnv :=
  { nodes := [hostNode 1, hostNode 2, hostNode 3]
    portMap := fun k => if 1 ≤ k ∧ k ≤ 3 then some ⟨hostPort k, hostData k, rfl⟩ else none
    subnetPrefix := hostPrefix
    mlidTableCap := sixteenLids }

def sharedPool : McPool := ⟨0, fun _ => { maximumLids := 4 }⟩

def hostGid (k : Nat) : IbGid := BitVec.ofNat 64 hostPrefix ++ BitVec.ofNat 64 k

def someMgid : IbGid := 0xff12401bffff000000000000000000a1#128

/-- Host `k` asks for the group `someMgid`, for itself. -/
def createReq (k : Nat) : Mai :=
  { method := .set
    slid := k
    mask := CompMask.okCreate ||| CompMask.mgid
    record :=
      { mGid := someMgid, portGid := hostGid k, pKey := 0xffff, joinFullMember := true } }

def joinReq (k : Nat) (full : Bool) : Mai :=
  { method := .set
    slid := k
    mask := CompMask.okJoin
    record :=
      { mGid := someMgid
        portGid := hostGid k
        joinFullMember := full
        joinSendOnlyMember := !full } }

def leaveReq (k : Nat) (full : Bool) : Mai := { joinReq k full with method := .delete }

/-!
## The membership store over whole runs

MGIDs are distinct and not null, a group lists a port once, and `members_full`
counts the members with a full-member join, of which there is at least one.
That holds in every run in which no member without a full-member join joins
again or leaves, and no group is created under an MGID that the request did not
name and that is null or taken.
-/

open OpaFm.Lib

def McMember.isFull (m : McMember) : Bool := m.record.joinFullMember

structure GroupOk (g : McGroup) : Prop where
  ports : (g.mcMembers.map fun m => m.record.portGid).Nodup
  full : g.membersFull = g.mcMembers.countP McMember.isFull
  some_full : 0 < g.mcMembers.countP McMember.isFull

structure StoreOk (st : SaState) : Prop where
  mgids : (st.mcGroups.map McGroup.mGid).Nodup
  nonNull : ∀ g ∈ st.mcGroups, g.mGid ≠ nullGid
  groups : ∀ g ∈ st.mcGroups, GroupOk g

/-- The side condition, on the requests that pass their checks: an MGID that a
create does not name is neither null nor taken, and a port that joins again or
leaves has a full-member join. -/
structure MembershipStepOk (st : SaState) (i : SaInput) : Prop where
  create : ∀ sp record groupVf args,
    validateSet i.env st i.req = .ok (.create sp record groupVf args) →
    namesNoMgid i.req = true →
    i.req.record.mGid ≠ nullGid ∧ smFindMulticastGid st.mcGroups i.req.record.mGid = none
  rejoin : ∀ sp g m, validateSet i.env st i.req = .ok (.join sp g) →
    smFindMulticastMember g i.req.record.portGid = some m → m.isFull = true
  leave : ∀ g m, validateDelete i.env st i.req = .ok (g, m) → m.isFull = true

/-- `StoreOk` with what the join state field really holds: the bits of the
record are or-ed into one, so that it is 1 for every kind of member. -/
structure StoreInv (st : SaState) : Prop where
  ok : StoreOk st
  state : ∀ g ∈ st.mcGroups, ∀ m ∈ g.mcMembers, m.state = 1

/-! ### Join states -/

theorem getJoinState_eq_one {r : McMemberRecord} (h : r.getJoinState ≠ 0) :
    r.getJoinState = 1 := by
  rw [getJoinState_eq] at h ⊢
  cases hb : r.joinSendOnlyMember || r.joinNonMember || r.joinFullMember with
  | false => simp [hb] at h
  | true => rfl

theorem rejoinRecord_full {req : Mai} {g : McGroup} {m : McMember} (hstate : m.state = 1) :
    (rejoinRecord req g m).joinFullMember = true := by
  simp [rejoinRecord, hstate, mcMemberJoinFullMember]

/-! ### One group -/

theorem smFindMulticastMember_split {g : McGroup} {gid : IbGid} {m : McMember}
    (h : smFindMulticastMember g gid = some m) :
    ∃ l₁ l₂, g.mcMembers = l₁ ++ m :: l₂ ∧ m.record.portGid = gid ∧
      (∀ f, modifyFirst (fun m' => m'.record.portGid = gid) f g.mcMembers = l₁ ++ f m :: l₂) ∧
      g.mcMembers.eraseP (fun m' => m'.record.portGid = gid) = l₁ ++ l₂ := by
  obtain ⟨l₁, l₂, hl, hmod, herase⟩ := find?_split h
  exact ⟨l₁, l₂, hl, by simpa using List.find?_some h, hmod, herase⟩

theorem newGroup_ok (req : Mai) (sp : SetParams) (record : McMemberRecord) (groupVf : Finset Nat)
    (mLid : Nat) (hfull : record.joinFullMember = true) :
    GroupOk (newGroup req sp record groupVf mLid) := by
  constructor
  · simp [newGroup]
  · simp [newGroup, fillMember, McMember.isFull, hfull]
  · simp [newGroup, fillMember, McMember.isFull, hfull]

theorem GroupOk.join {g : McGroup} (h : GroupOk g) (hstate : ∀ m ∈ g.mcMembers, m.state = 1)
    {req : Mai} (sp : SetParams)
    (hre : ∀ m, smFindMulticastMember g req.record.portGid = some m → m.isFull = true) :
    GroupOk (joinGroup req sp g) := by
  unfold joinGroup
  cases hfind : smFindMulticastMember g req.record.portGid with
  | none =>
    have hnew : req.record.portGid ∉ g.mcMembers.map fun m => m.record.portGid := by
      intro hmem
      obtain ⟨m, hm, hgid⟩ := List.mem_map.mp hmem
      exact absurd (List.find?_eq_none.mp hfind m hm) (by simp [hgid])
    have hisFull : (fillMember req sp (g.indexPool + 1) (joinRecord req g)).isFull =
        req.record.joinFullMember := rfl
    have hrec : (joinRecord req g).joinFullMember = req.record.joinFullMember := rfl
    constructor
    · simp only [List.map_cons]
      exact List.nodup_cons.mpr ⟨hnew, h.ports⟩
    · simp only [List.countP_cons, hisFull, hrec]
      have := h.full
      split <;> omega
    · simp only [List.countP_cons]
      have := h.some_full
      omega
  | some m =>
    obtain ⟨l₁, l₂, hl, hgid, hmod, -⟩ := smFindMulticastMember_split hfind
    have hm : m ∈ g.mcMembers := by rw [hl]; simp
    have hst := hstate m hm
    have hisFull : ∀ k, (fillMember req sp k (rejoinRecord req g m)).isFull = true :=
      fun _ => rejoinRecord_full hst
    have hcount : (l₁ ++ fillMember req sp m.index (rejoinRecord req g m) :: l₂).countP
        McMember.isFull = g.mcMembers.countP McMember.isFull := by
      simp [hl, List.countP_append, hisFull, hre m hfind]
    simp only [hmod]
    constructor
    · have hports := h.ports
      rw [hl] at hports
      simpa [fillMember, rejoinRecord, joinRecord, hgid] using hports
    · simp only [hcount]
      rw [if_neg (by simp [hst, mcMemberJoinFullMember]), h.full]
    · simp only [hcount]
      exact h.some_full

theorem joinGroup_state {g : McGroup} (hstate : ∀ m ∈ g.mcMembers, m.state = 1) {req : Mai}
    (sp : SetParams) (hjoin : req.record.getJoinState ≠ 0) :
    ∀ m ∈ (joinGroup req sp g).mcMembers, m.state = 1 := by
  unfold joinGroup
  cases hfind : smFindMulticastMember g req.record.portGid with
  | none =>
    intro m hm
    rcases List.mem_cons.mp hm with rfl | hm
    · exact getJoinState_eq_one hjoin
    · exact hstate m hm
  | some m₀ =>
    obtain ⟨l₁, l₂, hl, -, hmod, -⟩ := smFindMulticastMember_split hfind
    simp only [hmod]
    intro m hm
    rcases List.mem_append.mp hm with hm | hm
    · exact hstate m (by rw [hl]; simp [hm])
    · rcases List.mem_cons.mp hm with rfl | hm
      · apply getJoinState_eq_one
        rw [getJoinState_eq, rejoinRecord_full (hstate m₀ (by rw [hl]; simp))]
        simp
      · exact hstate m (by rw [hl]; simp [hm])

theorem leaveGroup_full {g : McGroup} (h : GroupOk g) {req : Mai} {m : McMember}
    (hfind : smFindMulticastMember g req.record.portGid = some m) (hstate : m.state = 1)
    (hjoin : m.state &&& req.record.getJoinState ≠ 0) (hfull : m.isFull = true) :
    ∃ l₁ l₂, g.mcMembers = l₁ ++ m :: l₂ ∧
      (leaveGroup req g m).mcMembers = l₁ ++ l₂ ∧
      (leaveGroup req g m).membersFull = (l₁ ++ l₂).countP McMember.isFull := by
  obtain ⟨l₁, l₂, hl, -, -, herase⟩ := smFindMulticastMember_split hfind
  have hone : req.record.getJoinState = 1 := by
    refine getJoinState_eq_one (fun hzero => hjoin ?_)
    simp [hzero]
  have hcount := h.full
  rw [hl] at hcount
  simp only [List.countP_append, List.countP_cons, hfull, ↓reduceIte] at hcount
  refine ⟨l₁, l₂, hl, ?_, ?_⟩
  · simp [leaveGroup, hstate, hone, herase]
  · simp [leaveGroup, hstate, hone, mcMemberJoinFullMember, dec32, hcount, List.countP_append]

theorem GroupOk.leave {g : McGroup} (h : GroupOk g) {req : Mai} {m : McMember}
    (hfind : smFindMulticastMember g req.record.portGid = some m) (hstate : m.state = 1)
    (hjoin : m.state &&& req.record.getJoinState ≠ 0) (hfull : m.isFull = true)
    (hkept : (leftGroup req g m).mcMembers ≠ []) :
    GroupOk (leftGroup req g m) ∧
      ∀ m' ∈ (leftGroup req g m).mcMembers, m' ∈ g.mcMembers := by
  obtain ⟨l₁, l₂, hl, hmembers, hcount⟩ := leaveGroup_full h hfind hstate hjoin hfull
  have hpos : (leaveGroup req g m).membersFull ≠ 0 := by
    intro hzero
    exact hkept (by simp [leftGroup, hzero])
  rw [leftGroup, if_neg hpos]
  refine ⟨⟨?_, ?_, ?_⟩, ?_⟩
  · have hports := h.ports
    rw [hl] at hports
    rw [hmembers]
    refine List.Nodup.sublist ?_ hports
    exact List.Sublist.map _ (List.Sublist.append (List.Sublist.refl l₁) (List.sublist_cons_self m l₂))
  · rw [hmembers, hcount]
  · rw [hmembers, ← hcount]
    omega
  · intro m' hm'
    rw [hmembers] at hm'
    rw [hl]
    rcases List.mem_append.mp hm' with hm' | hm' <;> simp [hm']

/-! ### The store -/

theorem storeInv_initial (pool : McPool) : StoreInv { pool := pool } := by
  refine ⟨⟨List.nodup_nil, ?_, ?_⟩, ?_⟩ <;> intro g hg <;> cases hg

theorem StoreInv.replace {st : SaState} (h : StoreInv st) {gid : IbGid} {g g' : McGroup}
    (hfind : smFindMulticastGid st.mcGroups gid = some g) (hmgid : g'.mGid = g.mGid)
    (hok : GroupOk g') (hstate : ∀ m ∈ g'.mcMembers, m.state = 1) :
    StoreInv { st with mcGroups := modifyFirst (sameMgid g) (fun _ => g') st.mcGroups } := by
  obtain ⟨l₁, l₂, hl, hmod, -⟩ := find?_split (smFindMulticastGid_some hfind).2
  have hall : ∀ k ∈ l₁ ++ g' :: l₂, k = g' ∨ k ∈ st.mcGroups := by
    intro k hk
    rw [hl]
    rcases List.mem_append.mp hk with hk | hk
    · exact .inr (by simp [hk])
    · rcases List.mem_cons.mp hk with rfl | hk
      · exact .inl rfl
      · exact .inr (by simp [hk])
  have hg : g ∈ st.mcGroups := by rw [hl]; simp
  simp only [hmod]
  refine ⟨⟨?_, ?_, ?_⟩, ?_⟩
  · have hmgids := h.ok.mgids
    rw [hl] at hmgids
    simpa [hmgid] using hmgids
  · intro k hk
    rcases hall k hk with rfl | hk
    · rw [hmgid]
      exact h.ok.nonNull g hg
    · exact h.ok.nonNull k hk
  · intro k hk
    rcases hall k hk with rfl | hk
    · exact hok
    · exact h.ok.groups k hk
  · intro k hk
    rcases hall k hk with rfl | hk
    · exact hstate
    · exact h.state k hk

theorem StoreInv.erase {st : SaState} (h : StoreInv st) (g : McGroup) (pool : McPool) (n : Nat) :
    StoreInv ⟨pool, st.mcGroups.eraseP (sameMgid g), n⟩ := by
  have hsub : (st.mcGroups.eraseP (sameMgid g)).Sublist st.mcGroups := List.eraseP_sublist
  refine ⟨⟨h.ok.mgids.sublist (hsub.map _), ?_, ?_⟩, ?_⟩
  · exact fun k hk => h.ok.nonNull k (hsub.subset hk)
  · exact fun k hk => h.ok.groups k (hsub.subset hk)
  · exact fun k hk => h.state k (hsub.subset hk)

theorem StoreInv.step {st st' : SaState} {i : SaInput} {effect : Option Effect}
    (h : StoreInv st) (hok : MembershipStepOk st i)
    (hstep : SaStep i.env st i.req st' effect) : StoreInv st' := by
  cases hstep with
  | refused => exact h
  | noLid hset hlid => exact ⟨⟨h.ok.mgids, h.ok.nonNull, h.ok.groups⟩, h.state⟩
  | @created sp record groupVf args pool mLid hset hlid =>
    obtain ⟨sp', record', groupVf', args', heq, hcreate⟩ | ⟨sp', g, heq, -⟩ :=
      validateSet_ok hset
    · cases heq
      have hjoin := (setChecks_ok hcreate.checks).joins
      have hrec := hcreate.record_eq
      have hmgid : record.mGid = i.req.record.mGid := by rw [hrec]; rfl
      have hfull : record.joinFullMember = true := by rw [hrec]; exact hcreate.full
      have hstate : record.getJoinState ≠ 0 := by rw [hrec]; exact hjoin
      have hfree : i.req.record.mGid ≠ nullGid ∧
          smFindMulticastGid st.mcGroups i.req.record.mGid = none := by
        cases hcreate.path with
        | nullMgid hnone => exact hok.create _ _ _ _ hset hnone
        | mgid _ hvalid hfree => exact ⟨smMulticastGidValid_ne_null hvalid, hfree⟩
      refine ⟨⟨?_, ?_, ?_⟩, ?_⟩
      · simp only [List.map_cons]
        refine List.nodup_cons.mpr ⟨?_, h.ok.mgids⟩
        simp only [newGroup, hmgid]
        exact smFindMulticastGid_none hfree.2
      · intro g hg
        rcases List.mem_cons.mp hg with rfl | hg
        · simp only [newGroup, hmgid]
          exact hfree.1
        · exact h.ok.nonNull g hg
      · intro g hg
        rcases List.mem_cons.mp hg with rfl | hg
        · exact newGroup_ok _ _ _ _ _ hfull
        · exact h.ok.groups g hg
      · intro g hg
        rcases List.mem_cons.mp hg with rfl | hg
        · intro m hm
          simp only [newGroup, List.mem_singleton] at hm
          subst hm
          exact getJoinState_eq_one hstate
        · exact h.state g hg
    · cases heq
  | @joined sp g hset =>
    obtain ⟨sp', record', groupVf', args', heq, -⟩ | ⟨sp', g', heq, hjoin⟩ :=
      validateSet_ok hset
    · cases heq
    · cases heq
      have hg : g ∈ st.mcGroups := List.mem_of_find?_eq_some hjoin.found
      have hstate := (setChecks_ok hjoin.checks).joins
      exact h.replace hjoin.found (joinGroup_same _ _ _).mGid
        ((h.ok.groups g hg).join (h.state g hg) sp (fun m hm => hok.rejoin _ _ m hset hm))
        (joinGroup_state (h.state g hg) sp hstate)
  | @leftKept g m hdel hkept =>
    obtain ⟨hfind, hmem, hjoin⟩ := validateDelete_ok hdel
    have hg : g ∈ st.mcGroups := List.mem_of_find?_eq_some hfind
    have hm := h.state g hg m (List.mem_of_find?_eq_some hmem)
    obtain ⟨hok', hsub⟩ :=
      (h.ok.groups g hg).leave hmem hm hjoin (hok.leave g m hdel) hkept
    exact h.replace hfind (leftGroup_same _ _ _).mGid hok' (fun m' hm' => h.state g hg m' (hsub m' hm'))
  | @leftLast g _ _ _ _ _ => exact h.erase g _ _

/-- The store is sound in every state of every run whose requests all meet
`MembershipStepOk`. -/
theorem member_store_run (pool : McPool) (st : SaState)
    (hreach : Reach saStep MembershipStepOk { pool := pool } st) : StoreOk st := by
  have hinv : StoreInv st :=
    Reach.invariant StoreInv (storeInv_initial pool)
      (fun _ _ _ _ hs hok hstep => hs.step hok (saStep_cases hstep)) hreach
  exact hinv.ok

def suitsMembership (st : SaState) (i : SaInput) : Bool :=
  (match validateSet i.env st i.req with
    | .ok (.create _ _ _ _) => !namesNoMgid i.req ||
      i.req.record.mGid != nullGid && (smFindMulticastGid st.mcGroups i.req.record.mGid).isNone
    | .ok (.join _ g) => (smFindMulticastMember g i.req.record.portGid).all McMember.isFull
    | .error _ => true) &&
  match validateDelete i.env st i.req with
    | .ok (_, m) => m.isFull
    | .error _ => true

theorem membershipStepOk_of_suits (st : SaState) (i : SaInput) (h : suitsMembership st i = true) :
    MembershipStepOk st i := by
  unfold suitsMembership at h
  rw [Bool.and_eq_true] at h
  constructor
  · intro sp record groupVf args hset hnone
    have hcreate := h.1
    rw [hset] at hcreate
    simp only [hnone, Bool.not_true, Bool.false_or, Bool.and_eq_true, bne_iff_ne,
      Option.isNone_iff_eq_none] at hcreate
    exact hcreate
  · intro sp g m hset hm
    have hjoin := h.1
    rw [hset] at hjoin
    simp only [hm, Option.all_some] at hjoin
    exact hjoin
  · intro g m hdel
    have hleave := h.2
    rw [hdel] at hleave
    exact hleave

def evenReq : Mai :=
  { createReq 1 with
    mask := CompMask.okCreate ||| CompMask.okMtu ||| CompMask.okRate
    record :=
      { (createReq 1).record with
        pKey := 0x8005, mtu := 5, mtuSelector := prEq, rate := 5, rateSelector := prEq } }

def memberRun : List SaInput :=
  [evenReq, joinReq 2 true, joinReq 2 true, leaveReq 1 true].map fun req => ⟨threeHosts, req⟩

theorem member_store_run_create : ∃ st, (st.mcGroups.map fun g => (g.membersFull,
    g.mcMembers.map McMember.slid)) = [(1, [2])] ∧ StoreOk st := by
  have hrun : checkedRun saStep suitsMembership
      (fun st => (st.mcGroups.map fun g => (g.membersFull, g.mcMembers.map McMember.slid)) =
        [(1, [2])]) { pool := sharedPool } memberRun = true := by
    decide +kernel
  obtain ⟨st, hreach, htest⟩ := exists_reach_of_checkedRun membershipStepOk_of_suits .start hrun
  exact ⟨st, of_decide_eq_true htest, member_store_run sharedPool st hreach⟩

/-- Hosts 1 and 2 are full members, host 3 joins to send only and leaves again:
`members_full` has lost one of the two. -/
theorem member_store_send_only_leave :
    ∃ st, Reach saStep (fun _ _ => True) { pool := sharedPool } st ∧ ¬ StoreOk st := by
  obtain ⟨st, hreach, htest⟩ := exists_reach_of_holdsAfter saStep { pool := sharedPool }
    [⟨threeHosts, createReq 1⟩, ⟨threeHosts, joinReq 2 true⟩, ⟨threeHosts, joinReq 3 false⟩,
      ⟨threeHosts, leaveReq 3 false⟩]
    (fun st => st.mcGroups.any fun g => g.membersFull ≠ g.mcMembers.countP McMember.isFull)
    (by decide +kernel)
  refine ⟨st, hreach, fun hok => ?_⟩
  obtain ⟨g, hg, hne⟩ := List.any_eq_true.mp htest
  exact of_decide_eq_true hne (hok.groups g hg).full

end OpaFm.Multicast
