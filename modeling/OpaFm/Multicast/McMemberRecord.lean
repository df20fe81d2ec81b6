import OpaFm.Lib.FirstMatch
import OpaFm.Multicast.LidPool
import OpaFm.Partition.VirtualFabric

/-!
# McMemberRecord requests

`sa_McMemberRecord` and its Set and Delete handlers.  Each handler is split at
the point where the source stops checking and starts to change something: the
checks yield an action or the way they were left, and the action is then applied
to `sm_McGroups` and the MLID pool.

A check that is left through `goto done` carries the status the source stored
before it, or `none` where it stored nothing.
-/

namespace OpaFm.Multicast

open OpaFm.Fabric OpaFm.Lib OpaFm.Partition

/-! ## Status codes and component masks -/

def madStatusOk : Nat := 0
def madStatusBusy : Nat := 1
def madStatusSaNoResources : Nat := 0x100
def madStatusSaReqInvalid : Nat := 0x200
def madStatusSaNoRecords : Nat := 0x300
def madStatusSaReqInvalidGid : Nat := 0x500
def madStatusSaReqInsufficientComponents : Nat := 0x600
def madStatusDropped : Nat := 0x700

abbrev CompMask := BitVec 64

namespace CompMask

def mgid : CompMask := 0x1
def portGid : CompMask := 0x2
def qKey : CompMask := 0x4
def mtuSel : CompMask := 0x10
def mtu : CompMask := 0x20
def okMtu : CompMask := mtuSel ||| mtu
def tClass : CompMask := 0x40
def pKey : CompMask := 0x80
def rateSel : CompMask := 0x100
def rate : CompMask := 0x200
def okRate : CompMask := rate ||| rateSel
def lifeSel : CompMask := 0x400
def life : CompMask := 0x800
def okLife : CompMask := lifeSel ||| life
def sl : CompMask := 0x1000
def hop : CompMask := 0x4000
def scope : CompMask := 0x8000
def jnState : CompMask := 0x20000
def okJoin : CompMask := mgid ||| jnState ||| portGid
def okCreate : CompMask := pKey ||| qKey ||| sl ||| tClass ||| jnState ||| portGid

def hasAny (mask bits : CompMask) : Bool := mask &&& bits ≠ 0
def hasAll (mask bits : CompMask) : Bool := mask &&& bits = bits

end CompMask

/-! The selectors of a path or member record. -/

def prGt : Nat := 0
def prLt : Nat := 1
def prEq : Nat := 2
def prMax : Nat := 3
def prLifeMax : Nat := 0x3F

def mcMemberJoinFullMember : Nat := 1
def mcMemberJoinNonMember : Nat := 2
def mcMemberJoinSendOnlyMember : Nat := 4

def maxMcastMgids : Nat := 20000

def stlSaMadHeaderSize : Nat := 32
def stlMcMemberRecordSize : Nat := 56

/-! ## Requests and what they are checked against -/

inductive SaMethod where
  | set
  | delete
  deriving DecidableEq, Repr

/-- A request as it reaches the handler, its record decoded to host order. -/
structure Mai where
  method : SaMethod
  stlBaseVersion : Bool := true
  datasize : Nat := stlSaMadHeaderSize + stlMcMemberRecordSize
  slid : Nat
  mask : CompMask
  record : McMemberRecord

/-- What the handlers read besides the groups: the last swept topology and the
configuration. -/
structure SaEnv where
  /-- `old_topology.node_head` is there and the SM's own port is valid. -/
  smPortValid : Bool := true
  activateInProgress : Bool := false
  lidmap : Nat → Option Node := fun _ => none
  nodes : List Node := []
  portMap : Nat → Option ValidPort
  subnetPrefix : Nat
  disableMcastCheck : McGroupJoinBehavior := .strict
  maxMcastMtu : Nat := stlMtu8192
  maxMcastRate : Nat := ibStaticRate100G
  saDynamicPlt : Nat → Nat := fun _ => 0
  saPacketLifetimeN2 : Nat := 0x12
  virtualFabrics : Option VirtualFabrics := none
  mlidTableCap : MlidTableCap

structure SaState where
  pool : McPool
  mcGroups : List McGroup := []
  numMcGroups : Nat := 0

def unicastLidMin : Nat := 1
def unicastLidMax : Nat := 0xBFFF

/-- The port answers to `lid`; the upper end is kept in sixteen bits. -/
def ownsLid (lid : Nat) (p : Port) : Bool :=
  p.portData.any fun d => d.lid ≤ lid ∧ lid < (d.lid + 2 ^ d.lmc) % 65536

def smFindPortLid (env : SaEnv) (lid : Nat) : Option ValidPort :=
  if lid < unicastLidMin ∨ unicastLidMax < lid then none
  else
    let quick := (env.lidmap lid).bind fun n => (endPorts n).find? (ownsLid lid)
    let found := quick.or ((env.nodes.flatMap endPorts).find? (ownsLid lid))
    found.bind Port.toValid

def smFindActivePortLid (env : SaEnv) (lid : Nat) : Option ValidPort :=
  (smFindPortLid env lid).filter fun p => PortState.armed.code ≤ p.port.state.code

def smFindActivePortGuid (env : SaEnv) (guid : Nat) : Option ValidPort :=
  (env.portMap guid).filter fun p => PortState.armed.code ≤ p.port.state.code

abbrev Check (α : Type) := Except (Option Nat) α

/-- `maip->base.status = status; goto done`, unless the condition holds. -/
def require (cond : Bool) (status : Nat) : Check Unit :=
  if cond then .ok () else .error (some status)

/-- `goto done` or `return` with no status stored, when the condition holds. -/
def leaveIf (cond : Bool) : Check Unit := if cond then .error none else .ok ()

def orElseStatus {α : Type} (x : Option α) (status : Nat) : Check α :=
  match x with
  | some a => .ok a
  | none => .error (some status)

/-! ## The checks common to create and join -/

def rateOneStepSmaller : Nat → Nat
  | 2 => ibStaticRateMin - 1
  | 5 => 2
  | 3 => 5
  | 6 => 3
  | 4 => 6
  | 7 => 4
  | 8 => 7
  | 9 => 8
  | 10 => 9
  | 11 => 3
  | 12 => 7
  | 13 => 9
  | 14 => 13
  | 15 => 6
  | 16 => 9
  | 17 => 14
  | 18 => 17
  | _ => ibStaticRate5G

/-- `maxMtu`: what the port, the fabric and the virtual fabric allow. -/
def allowedMtu (env : SaEnv) (d : PortData) (vfMaxMtu : Nat) : Nat :=
  if env.disableMcastCheck = .relaxed then d.maxVlMtu
  else if vfMaxMtu ≠ 0 then min (min d.maxVlMtu env.maxMcastMtu) vfMaxMtu
  else min d.maxVlMtu env.maxMcastMtu

def requestedMtu (env : SaEnv) (req : Mai) (d : PortData) (vfMaxMtu : Nat) : Check Nat := do
  let maxMtu := allowedMtu env d vfMaxMtu
  let tempMask := req.mask &&& CompMask.okMtu
  if tempMask = CompMask.okMtu then
    let mtu ←
      match req.record.mtuSelector with
      | 0 => pure (if req.record.mtu < maxMtu then maxMtu else getNextMTU req.record.mtu)
      | 1 => pure (if maxMtu < req.record.mtu then maxMtu else getPrevMTU req.record.mtu)
      | 2 => pure req.record.mtu
      | 3 => pure maxMtu
      | _ => throw (some madStatusSaReqInvalid)
    require (mtu ≤ stlMtuMax ∧ ibMtu256 ≤ mtu ∧ mtu ≤ maxMtu) madStatusSaReqInvalid
    pure mtu
  else if tempMask ≠ 0 then
    require (tempMask = CompMask.mtuSel ∧ req.record.mtuSelector = prMax)
      madStatusSaReqInsufficientComponents
    pure maxMtu
  else if env.disableMcastCheck = .relaxed then pure (min maxMtu ibMtu2048)
  else pure maxMtu

def smallerRate (r₁ r₂ : Nat) : Nat := if linkrateLt r₁ r₂ then r₁ else r₂

def allowedRate (env : SaEnv) (d : PortData) (vfMaxRate : Nat) : Nat :=
  if env.disableMcastCheck = .relaxed then d.rate
  else if vfMaxRate ≠ 0 then smallerRate (smallerRate d.rate env.maxMcastRate) vfMaxRate
  else smallerRate d.rate env.maxMcastRate

def requestedRate (env : SaEnv) (req : Mai) (d : PortData) (vfMaxRate : Nat) : Check Nat := do
  let activeRate := d.rate
  let maxRate := allowedRate env d vfMaxRate
  let tempMask := req.mask &&& CompMask.okRate
  if tempMask = CompMask.okRate then
    let rate ←
      match req.record.rateSelector with
      | 0 => pure (if linkrateGt maxRate req.record.rate then maxRate else ibStaticRateMax + 1)
      | 1 =>
        pure (if linkrateLt maxRate req.record.rate then maxRate
          else rateOneStepSmaller req.record.rate)
      | 2 => pure req.record.rate
      | 3 => pure maxRate
      | _ => throw (some madStatusSaReqInvalid)
    require (rate ≤ ibStaticRateMax ∧ ibStaticRateMin ≤ rate ∧ ¬linkrateGt rate maxRate)
      madStatusSaReqInvalid
    pure rate
  else if tempMask ≠ 0 then
    require (tempMask = CompMask.rateSel ∧ req.record.rateSelector = prMax)
      madStatusSaReqInsufficientComponents
    pure maxRate
  else if env.disableMcastCheck = .relaxed then pure (smallerRate activeRate ibStaticRate100G)
  else pure maxRate

def hopLife (env : SaEnv) (req : Mai) : Nat × Nat :=
  let far := if env.saDynamicPlt 0 = 0 then env.saPacketLifetimeN2 else env.saDynamicPlt 9
  if req.mask.hasAny CompMask.hop then
    let hopLimit := req.record.hopLimit
    (hopLimit,
      if hopLimit = 0 then 0
      else if env.saDynamicPlt 0 = 0 then env.saPacketLifetimeN2
      else if hopLimit < 8 then env.saDynamicPlt hopLimit
      else env.saDynamicPlt 9)
  else (0xFF, far)

def selectedLife (req : Mai) (saLife : Nat) : Option Nat :=
  match req.record.pktLifeTimeSelector with
  | 0 => some (if req.record.pktLifeTime < saLife then saLife else req.record.pktLifeTime + 1)
  | 1 =>
    some (if saLife < req.record.pktLifeTime then saLife
      else (req.record.pktLifeTime + 255) % 256)
  | 2 => some req.record.pktLifeTime
  | 3 => some saLife
  | _ => none

def lifeOutOfRange (saLife life : Nat) : Bool := life < saLife ∨ prLifeMax < life

/-- The lifetime a request comes to.  The range check leaves without storing a
status. -/
def requestedLife (req : Mai) (saLife : Nat) : Check Nat := do
  let tempMask := req.mask &&& CompMask.okLife
  if tempMask = CompMask.okLife then
    let life ← orElseStatus (selectedLife req saLife) madStatusSaReqInvalid
    leaveIf (lifeOutOfRange saLife life)
    pure life
  else if tempMask ≠ 0 then
    require (tempMask = CompMask.lifeSel ∧ req.record.pktLifeTimeSelector = prMax)
      madStatusSaReqInsufficientComponents
    pure saLife
  else pure saLife

/-- The ports and values that the common checks settle. -/
structure SetParams where
  port : ValidPort
  reqPort : ValidPort
  mtu : Nat
  rate : Nat
  hopLimit : Nat
  life : Nat
  qKey : Nat
  scope : Nat

/-- `maip->datasize - sizeof(STL_SA_MAD_HEADER) < sizeof(STL_MCMEMBER_RECORD)`, in
`size_t`. -/
def madTooShort (req : Mai) : Bool :=
  (req.datasize + 2 ^ 64 - stlSaMadHeaderSize) % 2 ^ 64 < stlMcMemberRecordSize

def setPorts (env : SaEnv) (req : Mai) : Check (ValidPort × ValidPort) := do
  require (!(req.stlBaseVersion && madTooShort req)) madStatusSaReqInvalid
  require env.smPortValid madStatusBusy
  let reqPort ← orElseStatus (smFindActivePortLid env req.slid)
    (if env.activateInProgress then madStatusDropped else madStatusSaReqInvalid)
  require (req.record.portGid.interfaceId ≠ 0) madStatusSaReqInvalidGid
  require (req.record.portGid.subnetPrefix = env.subnetPrefix) madStatusSaReqInvalidGid
  let port ← orElseStatus (smFindActivePortGuid env req.record.portGid.interfaceId)
    (if env.activateInProgress then madStatusBusy else madStatusSaReqInvalid)
  pure (port, reqPort)

def setLinkChecks (env : SaEnv) (req : Mai) : Check (ValidPort × ValidPort × Nat × Nat) := do
  let (port, reqPort) ← setPorts env req
  let vfMax := smGetVfMaxMtu env.virtualFabrics port.data reqPort.data req.record
  let mtu ← requestedMtu env req port.data vfMax.1
  let rate ← requestedRate env req port.data vfMax.2
  pure (port, reqPort, mtu, rate)

def setChecks (env : SaEnv) (req : Mai) : Check SetParams := do
  let (port, reqPort, mtu, rate) ← setLinkChecks env req
  let life ← requestedLife req (hopLife env req).2
  require (!(req.mask.hasAny CompMask.pKey && !pKeyIsFull req.record.pKey)) madStatusSaReqInvalid
  require (req.record.getJoinState ≠ 0) madStatusSaReqInvalid
  pure
    { port := port
      reqPort := reqPort
      mtu := mtu
      rate := rate
      hopLimit := (hopLife env req).1
      life := life
      qKey := if req.mask.hasAny CompMask.qKey then req.record.qKey else 0
      scope := if req.mask.hasAll CompMask.scope then req.record.scope else ibLinkLocalScope }

/-! ## Create -/

def namesNoMgid (req : Mai) : Bool :=
  !req.mask.hasAny CompMask.mgid || req.record.mGid = nullGid

def createRecord (req : Mai) (sp : SetParams) : McMemberRecord :=
  { req.record with
    mtuSelector := prEq
    mtu := sp.mtu
    rateSelector := prEq
    rate := sp.rate
    pktLifeTimeSelector := prEq
    pktLifeTime := sp.life
    qKey := sp.qKey
    hopLimit := sp.hopLimit
    scope := sp.scope }

/-- The arguments of `sm_multicast_assign_lid`, in its own order. -/
structure AssignArgs where
  pKey : Nat
  mtu : Nat
  rate : Nat
  deriving DecidableEq, Repr

inductive SetAction where
  | create (sp : SetParams) (record : McMemberRecord) (groupVf : Finset Nat) (args : AssignArgs)
  | join (sp : SetParams) (group : McGroup)

def createVfs (env : SaEnv) (sp : SetParams) (record : McMemberRecord) : Check (Finset Nat) :=
  match env.virtualFabrics with
  | none => .ok ∅
  | some vfs =>
    if vfs.securityEnabled then
      orElseStatus
        (smVFValidateMcGrpCreateParams vfs sp.port.data
          (if sp.port.data.guid ≠ sp.reqPort.data.guid then some sp.reqPort.data else none)
          record)
        madStatusSaReqInvalid
    else .ok ∅

/-- A create without an MGID.  The call of `sm_multicast_assign_lid` has the MTU
in the place of the P_Key, the rate in that of the MTU, and the low byte of the
P_Key in that of the rate. -/
def nullMgidCreate (env : SaEnv) (st : SaState) (req : Mai) (sp : SetParams) :
    Check SetAction := do
  require (req.mask.hasAll CompMask.okCreate) madStatusSaReqInsufficientComponents
  require req.record.joinFullMember madStatusSaReqInvalid
  require (st.numMcGroups ≠ maxMcastMgids) madStatusSaNoResources
  require (smMulticastGidAssign st.mcGroups sp.scope env.subnetPrefix = .ok)
    madStatusSaNoResources
  let record := createRecord req sp
  let groupVf ← createVfs env sp record
  pure (.create sp record groupVf ⟨record.mtu, record.rate, record.pKey % 256⟩)

def mgidCreate (env : SaEnv) (st : SaState) (req : Mai) (sp : SetParams) : Check SetAction := do
  require (smMulticastGidValid req.record.mGid) madStatusSaReqInvalidGid
  require (req.mask.hasAll CompMask.okCreate)
    (if req.mask.hasAll CompMask.okJoin then madStatusSaReqInvalid
      else madStatusSaReqInsufficientComponents)
  require req.record.joinFullMember madStatusSaReqInvalid
  require (st.numMcGroups ≠ maxMcastMgids) madStatusSaNoResources
  let record := createRecord req sp
  let groupVf ← createVfs env sp record
  pure (.create sp record groupVf ⟨record.pKey, record.mtu, record.rate⟩)

/-! ## Join -/

def joinMtuOk (req : Mai) (sp : SetParams) (g : McGroup) : Bool :=
  if ¬req.mask.hasAny CompMask.okMtu then g.mtu ≤ sp.port.data.maxVlMtu
  else
    ¬(g.mtu < sp.mtu ∧ req.record.mtuSelector ≠ prLt) ∧
      ¬(sp.mtu < g.mtu ∧ req.record.mtuSelector ≠ prGt ∧ req.record.mtuSelector ≠ prMax) ∧
      g.mtu ≤ sp.port.data.maxVlMtu

def joinRateOk (req : Mai) (sp : SetParams) (g : McGroup) : Bool :=
  let activeRate := sp.port.data.rate
  if ¬req.mask.hasAny CompMask.okRate then ¬linkrateLt activeRate g.rate
  else
    ¬(linkrateLt g.rate sp.rate ∧ req.record.rateSelector ≠ prLt) ∧
      ¬(linkrateGt g.rate sp.rate ∧ req.record.rateSelector ≠ prGt ∧
        req.record.rateSelector ≠ prMax) ∧
      ¬linkrateGt g.rate activeRate

def joinVfOk (env : SaEnv) (sp : SetParams) (g : McGroup) : Bool :=
  env.virtualFabrics.all fun vfs =>
    !vfs.securityEnabled ||
      ((g.vfMembers ∩ sp.reqPort.data.vfMember).Nonempty &&
        (g.vfMembers ∩ sp.reqPort.data.fullPKeyMember).Nonempty)

def joinChecks (env : SaEnv) (req : Mai) (sp : SetParams) (g : McGroup) : Check SetAction := do
  require (req.mask.hasAny CompMask.okJoin) madStatusSaReqInsufficientComponents
  require (!(req.mask.hasAny CompMask.qKey && req.record.qKey ≠ g.qKey)) madStatusSaReqInvalid
  require (!(req.mask.hasAny CompMask.pKey && req.record.pKey ≠ g.pKey)) madStatusSaReqInvalid
  require (!(req.mask.hasAny CompMask.sl && req.record.sl ≠ g.sl)) madStatusSaReqInvalid
  require (joinMtuOk req sp g) madStatusSaReqInvalid
  require (joinRateOk req sp g) madStatusSaReqInvalid
  require (joinVfOk env sp g) madStatusSaReqInvalid
  pure (.join sp g)

def validateSet (env : SaEnv) (st : SaState) (req : Mai) : Check SetAction := do
  let sp ← setChecks env req
  if namesNoMgid req then nullMgidCreate env st req sp
  else
    match smFindMulticastGid st.mcGroups req.record.mGid with
    | none => mgidCreate env st req sp
    | some g => joinChecks env req sp g

/-! ## Applying a Set -/

def fillMember (req : Mai) (sp : SetParams) (index : Nat) (record : McMemberRecord) : McMember where
  slid := req.slid
  proxy := req.slid ≠ sp.port.data.lid
  state := record.getJoinState
  portGuid := req.record.portGid.interfaceId
  record := record
  index := index

/-- `McGroup_Create` with its first `McMember_Create`, on a zeroed group. -/
def newGroup (req : Mai) (sp : SetParams) (record : McMemberRecord) (groupVf : Finset Nat)
    (mLid : Nat) : McGroup :=
  let record := { record with mLid := mLid }
  { mGid := record.mGid
    membersFull := 1
    qKey := record.qKey
    pKey := record.pKey
    mLid := mLid
    mtu := record.mtu
    rate := record.rate
    life := record.pktLifeTime
    sl := record.sl
    hopLimit := record.hopLimit
    tClass := record.tClass
    scope := record.scope
    mcMembers := [fillMember req sp 1 record]
    indexPool := 1
    vfMembers := groupVf }

def joinRecord (req : Mai) (g : McGroup) : McMemberRecord :=
  { req.record with
    mLid := g.mLid
    mtuSelector := prEq
    mtu := g.mtu
    rateSelector := prEq
    rate := g.rate
    pktLifeTimeSelector := prEq
    pktLifeTime := g.life
    pKey := g.pKey
    qKey := g.qKey
    sl := g.sl
    hopLimit := g.hopLimit }

/-- A join by a port that is a member already: its old join state is merged in.
Each join field is one bit wide, so only bit 0 of what is or-ed into it stays. -/
def rejoinRecord (req : Mai) (g : McGroup) (m : McMember) : McMemberRecord :=
  { joinRecord req g with
    joinFullMember :=
      req.record.joinFullMember || (m.state &&& mcMemberJoinFullMember) % 2 = 1
    joinNonMember :=
      req.record.joinNonMember || (m.state &&& mcMemberJoinNonMember) % 2 = 1
    joinSendOnlyMember :=
      req.record.joinSendOnlyMember || (m.state &&& mcMemberJoinSendOnlyMember) % 2 = 1 }

def joinGroup (req : Mai) (sp : SetParams) (g : McGroup) : McGroup :=
  match smFindMulticastMember g req.record.portGid with
  | none =>
    let record := joinRecord req g
    { g with
      indexPool := g.indexPool + 1
      mcMembers := fillMember req sp (g.indexPool + 1) record :: g.mcMembers
      membersFull := if record.joinFullMember then g.membersFull + 1 else g.membersFull }
  | some m =>
    let record := rejoinRecord req g m
    { g with
      mcMembers := modifyFirst (fun m' => m'.record.portGid = req.record.portGid)
        (fun m' => fillMember req sp m'.index record) g.mcMembers
      membersFull :=
        if m.state &&& mcMemberJoinFullMember = 0 ∧ record.joinFullMember then
          g.membersFull + 1
        else g.membersFull }

/-- The test for a group's place in `sm_McGroups`, which the source reaches by
pointer: the first group with this MGID. -/
def sameMgid (g : McGroup) : McGroup → Bool := fun h => h.mGid = g.mGid

inductive Effect where
  | created
  | joined
  | left
  deriving DecidableEq, Repr

/-- What a handler leaves: `maip->base.status`, `*records`, and its effect. -/
structure Outcome where
  status : Nat
  records : Nat
  effect : Option Effect
  deriving DecidableEq, Repr

/-- The `done` label of a Set.  A request arrives with status 0, which is what
an exit that stores nothing leaves. -/
def setDone (status : Option Nat) (effect : Option Effect) : Outcome :=
  let status := status.getD madStatusOk
  ⟨status, if status = madStatusOk then 1 else 0, effect⟩

def saMcMemberRecordSet (env : SaEnv) (st : SaState) (req : Mai) :
    Except Fault (SaState × Outcome) :=
  match validateSet env st req with
  | .error status => .ok (st, setDone status none)
  | .ok (.create sp record groupVf args) => do
      let (pool, r) ← smMulticastAssignLid env.mlidTableCap st.pool st.mcGroups record.mGid
        args.pKey args.mtu args.rate
      match r with
      | .error _ => pure ({ st with pool := pool }, setDone (some madStatusSaNoResources) none)
      | .ok mLid =>
        pure
          ({ pool := pool
             mcGroups := newGroup req sp record groupVf mLid :: st.mcGroups
             numMcGroups := st.numMcGroups + 1 },
            setDone none (some .created))
  | .ok (.join sp g) =>
    .ok
      ({ st with
         mcGroups := modifyFirst (sameMgid g) (fun _ => joinGroup req sp g) st.mcGroups },
        setDone none (some .joined))

/-! ## Delete -/

/-- The ports of a Delete.  A missing topology leaves before the reply is set
up; the caller sets its record count to zero in any case. -/
def deletePorts (env : SaEnv) (req : Mai) : Check (ValidPort × ValidPort) := do
  require env.smPortValid madStatusBusy
  let sender ← orElseStatus (smFindActivePortLid env req.slid) madStatusSaReqInvalid
  require (req.record.portGid.interfaceId ≠ 0) madStatusSaReqInvalidGid
  require (req.record.portGid.subnetPrefix = env.subnetPrefix) madStatusSaReqInvalidGid
  let port ← orElseStatus (smFindActivePortGuid env req.record.portGid.interfaceId)
    madStatusSaReqInvalid
  pure (port, sender)

/-- A member that joined for itself leaves for itself; one that was joined by
proxy needs its P_Key, when the request has one. -/
def mayDelete (req : Mai) (port : ValidPort) (m : McMember) : Bool :=
  if m.proxy then !(req.mask.hasAny CompMask.pKey && req.record.pKey ≠ m.record.pKey)
  else port.data.lid = req.slid

def deleteMember (st : SaState) (req : Mai) (port : ValidPort) : Check (McGroup × McMember) := do
  let g ← orElseStatus (smFindMulticastGid st.mcGroups req.record.mGid) madStatusSaReqInvalidGid
  let m ← orElseStatus (smFindMulticastMember g req.record.portGid) madStatusSaReqInvalidGid
  require (m.state &&& req.record.getJoinState ≠ 0 ∧
    m.state ||| req.record.getJoinState = m.state) madStatusSaReqInvalid
  require (mayDelete req port m) madStatusSaReqInvalid
  pure (g, m)

def deleteVfMismatch (env : SaEnv) (port sender : ValidPort) (g : McGroup) : Bool :=
  env.virtualFabrics.any fun vfs =>
    vfs.securityEnabled && ¬(g.vfMembers ∩ sender.data.vfMember).Nonempty &&
      ¬(g.vfMembers ∩ port.data.vfMember).Nonempty

/-- Everything a Delete checks.  The virtual fabric test leaves without storing
a status. -/
def validateDelete (env : SaEnv) (st : SaState) (req : Mai) : Check (McGroup × McMember) := do
  let (port, sender) ← deletePorts env req
  let (g, m) ← deleteMember st req port
  leaveIf (deleteVfMismatch env port sender g)
  pure (g, m)

def dec32 (n : Nat) : Nat := if n = 0 then 2 ^ 32 - 1 else n - 1

/-- The group after a leave, before it is looked at for deletion.  `state` is a
byte, so its complement is taken within one. -/
def leaveGroup (req : Mai) (g : McGroup) (m : McMember) : McGroup :=
  let joinState := m.state &&& (255 - req.record.getJoinState)
  if joinState = 0 then
    { g with
      membersFull :=
        if m.state &&& mcMemberJoinFullMember ≠ 0 then dec32 g.membersFull else g.membersFull
      mcMembers := g.mcMembers.eraseP fun m' => m'.record.portGid = req.record.portGid }
  else
    { g with
      membersFull :=
        if m.state &&& mcMemberJoinFullMember ≠ 0 ∧ req.record.joinFullMember then
          dec32 g.membersFull
        else g.membersFull
      mcMembers := modifyFirst (fun m' => m'.record.portGid = req.record.portGid)
        (fun m' => { m' with state := joinState }) g.mcMembers }

def leftGroup (req : Mai) (g : McGroup) (m : McMember) : McGroup :=
  if (leaveGroup req g m).membersFull = 0 then { leaveGroup req g m with mcMembers := [] }
  else leaveGroup req g m

def saMcMemberRecordDelete (env : SaEnv) (st : SaState) (req : Mai) :
    Except Fault (SaState × Outcome) :=
  match validateDelete env st req with
  | .error status => .ok (st, ⟨status.getD madStatusOk, 1, none⟩)
  | .ok (g, m) =>
    if (leftGroup req g m).mcMembers = [] then do
      let pool ← smMulticastDecommisionGroup st.pool (leftGroup req g m)
      pure
        ({ pool := pool
           mcGroups := st.mcGroups.eraseP (sameMgid g)
           numMcGroups := st.numMcGroups - 1 },
          ⟨madStatusOk, 1, some .left⟩)
    else
      .ok
        ({ st with
           mcGroups := modifyFirst (sameMgid g) (fun _ => leftGroup req g m) st.mcGroups },
          ⟨madStatusOk, 1, some .left⟩)

/-! ## The dispatcher -/

structure Reply where
  status : Nat
  records : Nat
  deriving DecidableEq, Repr

/-- The reply that `sa_McMemberRecord` makes of a handler's outcome; a Set with
the busy code is dropped. -/
def saReply (method : SaMethod) (o : Outcome) : Option Reply :=
  let r : Reply :=
    if o.status ≠ madStatusOk then ⟨o.status, 0⟩
    else if o.records = 0 then ⟨madStatusSaNoRecords, 0⟩
    else ⟨o.status, o.records⟩
  if method = .set ∧ r.status = madStatusDropped then none else some r

def saMcMemberRecordHandler (env : SaEnv) (st : SaState) (req : Mai) :
    Except Fault (SaState × Outcome) :=
  match req.method with
  | .set => saMcMemberRecordSet env st req
  | .delete => saMcMemberRecordDelete env st req

/-- `sa_McMemberRecord`, for the two methods that change groups. -/
def saMcMemberRecord (env : SaEnv) (st : SaState) (req : Mai) :
    Except Fault (SaState × Option Reply × Option Effect) := do
  let (st', o) ← saMcMemberRecordHandler env st req
  pure (st', saReply req.method o, o.effect)

end OpaFm.Multicast
