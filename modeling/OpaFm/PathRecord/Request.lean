import OpaFm.PathRecord.PathRecordSet

/-!
# Path record requests

`sa_PathRecord` checks a request and finds its source under the read lock of the topology.  The
lock of the multicast groups is taken as well when no port has the destination GID.
-/

namespace OpaFm.PathRecord

open OpaFm.Fabric OpaFm.Partition
open OpaFm.Multicast hiding smFindPortLid smFindActivePortLid smFindActivePortGuid ownsLid

/-! ## Locks -/

/-- `old_topology_lock` and `sm_McGroups_lock`. -/
inductive SaLock where
  | topology
  | mcGroups
  deriving DecidableEq, Repr

inductive LockEvent where
  | take (lock : SaLock)
  | giveBack (lock : SaLock)
  deriving DecidableEq, Repr

/-! ## Requests -/

def saMadCversion : Nat := 2
def saCmGet : Nat := 1
def saCmGettable : Nat := 0x12

def madStatusBadClass : Nat := 4
def madStatusSaTooManyRecs : Nat := 0x400

def saMadHdrSize : BitVec 64 := 32
def ibPathRecordSize : BitVec 64 := 64

namespace PathMask

def srvId : CompMask := 0x1
def dgid : CompMask := 0x4
def sgid : CompMask := 0x8
def dlid : CompMask := 0x10
def slid : CompMask := 0x20
def noDst : CompMask := 0x14
def okSrc : CompMask := 0x1008
def paths : CompMask := 0x1000
def pkey : CompMask := 0x2000
def sl : CompMask := 0x8000
def mtuSel : CompMask := 0x10000
def mtu : CompMask := 0x20000
def rateSel : CompMask := 0x40000
def rate : CompMask := 0x80000

end PathMask

/-- A request as it reaches `sa_PathRecord`, its record decoded to host order. -/
structure PathMai where
  cversion : Nat := saMadCversion
  method : Nat
  status : Nat := madStatusOk
  slid : Nat
  datasize : BitVec 16
  mask : CompMask
  record : IbPathRecord

/-- `maip->datasize-sizeof(SA_MAD_HDR) < sizeof(IB_PATH_RECORD)`, in `size_t`. -/
def PathMai.tooShort (maip : PathMai) : Bool :=
  (maip.datasize.signExtend 64 - saMadHdrSize).ult ibPathRecordSize

def PathMai.methodOk (maip : PathMai) : Bool :=
  maip.method = saCmGet ∨ maip.method = saCmGettable

/-- A multicast group with what its path record takes from it besides. -/
structure PathGroup extends McGroup where
  flowLabel : Nat := 0

/-- What a request is checked against. -/
structure RequestEnv (f : PathFabric) extends PathEnv where
  subnetPrefix : Nat
  queryValidation : Bool
  activateInProgress : Bool
  lidmap : Nat → Option { n : Node // n ∈ f.topology.nodes }
  portMap : Nat → Option (PathEnd f)
  mcGroups : List PathGroup

variable {f : PathFabric}

/-! ## Look-ups -/

def PathEnd.ownsLid (lid : Nat) (e : PathEnd f) : Bool :=
  e.portData.lid ≤ lid ∧ lid < e.portData.lid + 2 ^ e.portData.lmc

/-- `sm_find_node_and_port_lid` and `sm_find_port_lid`. -/
def smFindNodeAndPortLid (env : RequestEnv f) (lid : Nat) : Option (PathEnd f) :=
  if lid < Multicast.unicastLidMin ∨ Multicast.unicastLidMax < lid then none
  else
    let quick := (env.lidmap lid).bind fun n => (nodeEnds n).find? (PathEnd.ownsLid lid)
    quick.or ((f.topology.nodes.attach.flatMap nodeEnds).find? (PathEnd.ownsLid lid))

def PathEnd.isArmed (e : PathEnd f) : Bool := PortState.armed.code ≤ e.port.state.code

def smFindActivePortLid (env : RequestEnv f) (lid : Nat) : Option (PathEnd f) :=
  (smFindNodeAndPortLid env lid).filter PathEnd.isArmed

def smFindActivePortGuid (env : RequestEnv f) (guid : Nat) : Option (PathEnd f) :=
  (env.portMap guid).filter PathEnd.isArmed

def findPathGroup (groups : List PathGroup) (gid : IbGid) : Option PathGroup :=
  groups.find? fun g => g.mGid = gid

/-! ## Checks -/

/-- The test of a value with its selector in `sa_PathRecord_Interop`; `badAtLo` says whether the
selector does not go with the least value. -/
def interopField (mask selBit valueBit : CompMask) (selector value lo hi : Nat) (badAtLo : Bool) :
    Bool :=
  if mask.hasAny selBit ∧ selector < prMax ∧ mask.hasAny valueBit then
    if value < lo ∨ hi < value then false
    else if value = hi then selector ≠ prGt
    else if value = lo then !badAtLo
    else true
  else true

/-- `sa_PathRecord_Interop`, true for `VSTATUS_OK`.  The least MTU is tested with `selector < PR_LT`
and the least rate with `selector == PR_LT`. -/
def saPathRecordInterop (prp : IbPathRecord) (mask : CompMask) : Bool :=
  interopField mask PathMask.mtuSel PathMask.mtu prp.mtuSelector prp.mtu ibMtu256 stlMtuMax
      (prp.mtuSelector < prLt) &&
    interopField mask PathMask.rateSel PathMask.rate prp.rateSelector prp.rate ibStaticRateMin
      ibStaticRateMax (prp.rateSelector = prLt)

def requestedPaths (env : RequestEnv f) (maip : PathMai) : Check Nat :=
  if maip.method = saCmGettable then do
    require
      (if env.queryValidation then maip.mask.hasAll PathMask.okSrc
        else maip.mask.hasAny PathMask.sgid || maip.mask.hasAny PathMask.slid)
      madStatusSaReqInsufficientComponents
    -- OFED expects 127 where queries are not validated
    let numbPath :=
      if !env.queryValidation && !maip.mask.hasAny PathMask.paths then 127
      else maip.record.numbPath
    require (!(maip.mask.hasAny PathMask.sgid && maip.record.sgid = nullGid))
      madStatusSaReqInvalidGid
    require (!(maip.mask.hasAny PathMask.slid && maip.record.slid = 0)) madStatusSaReqInvalid
    require (!(maip.mask.hasAny PathMask.paths && numbPath = 0)) madStatusSaReqInvalid
    pure numbPath
  else pure 1

def requestedSource (env : RequestEnv f) (maip : PathMai) : Check (PathEnd f) :=
  if maip.mask.hasAny PathMask.sgid then do
    let gidPrefix := maip.record.sgid.subnetPrefix
    let guid := maip.record.sgid.interfaceId
    leaveIf (gidPrefix ≠ env.subnetPrefix)
    require (guid ≠ 0) madStatusSaReqInvalidGid
    let src ← orElseStatus (smFindActivePortGuid env guid)
      (if env.activateInProgress then madStatusBusy else madStatusSaReqInvalidGid)
    require (f.gidPrefix src.nodep.index src.port.index = gidPrefix ∧ src.portData.guid = guid)
      madStatusSaReqInvalidGid
    pure src
  else if maip.mask.hasAny PathMask.slid then
    orElseStatus (smFindActivePortLid env maip.record.slid)
      (if env.activateInProgress then madStatusBusy else madStatusSaReqInvalid)
  else throw (some madStatusSaReqInsufficientComponents)

/-- The values that the request gives, with those that stand for a missing component. -/
def requestedQuery (maip : PathMai) : PathQuery where
  mask := maip.mask
  record := maip.record
  slid := if maip.mask.hasAny PathMask.slid then BitVec.ofNat 16 maip.record.slid else 0xFFFF
  pkey := if maip.mask.hasAny PathMask.pkey then maip.record.pKey else 0
  serviceId := if maip.mask.hasAny PathMask.srvId then maip.record.serviceId else 0
  serviceIdCheck := maip.mask.hasAny PathMask.srvId
  sl := if maip.mask.hasAny PathMask.sl then maip.record.sl else 0xFF

/-- What the checks before the destination settle. -/
structure PathSource (f : PathFabric) where
  reqNodep : Node
  src : PathEnd f
  numbPath : Nat

def sourceChecks (env : RequestEnv f) (maip : PathMai) : Check (PathSource f) := do
  require maip.methodOk madStatusSaReqInvalid
  require (saPathRecordInterop maip.record maip.mask) madStatusSaReqInvalid
  let numbPath ← requestedPaths env maip
  let req ← orElseStatus ((smFindNodeAndPortLid env maip.slid).filter fun e => e.port.state.isUp)
    madStatusSaReqInvalid
  let src ← requestedSource env maip
  let pkey := (requestedQuery maip).pkey
  require (!(pkey ≠ 0 && smGetPortPkey pkey src.pKeyPort = 0)) madStatusSaReqInvalid
  require (saCompareNodePortPKeys req.nodep src) madStatusSaReqInvalid
  pure ⟨req.nodep, src, numbPath⟩

/-! ## Destinations -/

inductive PathDst (f : PathFabric) where
  | port (dst : PathEnd f)
  | group (g : PathGroup)

/-- `dst_portp` or `mcastGroup`, with what is done to the locks. -/
def requestedDst (env : RequestEnv f) (maip : PathMai) : List LockEvent × Check (PathDst f) :=
  if maip.mask.hasAny PathMask.dgid then
    let guid := maip.record.dgid.interfaceId
    if guid = 0 then ([], .error (some madStatusSaReqInvalidGid))
    else
      match env.portMap guid with
      | none =>
        match findPathGroup env.mcGroups maip.record.dgid with
        | none =>
          ([.take .mcGroups, .giveBack .mcGroups], .error (some madStatusSaNoRecords))
        | some g => ([.take .mcGroups], .ok (.group g))
      | some dst =>
        if dst.port.state.code < PortState.active.code then
          ([], .error (some madStatusSaNoRecords))
        else ([], .ok (.port dst))
  else if maip.mask.hasAny PathMask.dlid then
    ([], (orElseStatus (smFindActivePortLid env maip.record.dlid) madStatusSaNoRecords).map .port)
  else ([], .error (some madStatusSaReqInsufficientComponents))

/-- What is there at `reply_PathRecord`; `status` is what was stored since the lock was taken. -/
structure PathBody where
  locks : List LockEvent := []
  dstIsGroup : Bool := false
  status : Option Nat := none
  records : List IbPathRecord := []

def pathsToPort (env : RequestEnv f) (maip : PathMai) (fuel : Nat) (s : PathSource f)
    (dst : PathEnd f) : Option PathBody :=
  let q := requestedQuery maip
  let dlid := if maip.mask.hasAny PathMask.dlid then BitVec.ofNat 16 maip.record.dlid else 0xFFFF
  if dst.port.state.code ≤ PortState.init.code then some {}
  else if ¬saCompareNodePortPKeys s.reqNodep dst then some { status := madStatusSaReqInvalid }
  else if q.pkey ≠ 0 ∧ ¬smCheckPortPKey q.pkey dst.pKeyPort ∧ s.src.addr ≠ dst.addr then some {}
  else if q.pkey = 0 ∧ ¬saComparePKeys s.src.pKeyPort.pPKey dst.pKeyPort.pPKey then some {}
  else
    (saPathRecordSet env.toPathEnv q fuel [] s.numbPath s.src dst dlid).map fun r =>
      { records := r.2 }

def groupPathRecord (src : PathEnd f) (g : PathGroup) : IbPathRecord where
  dgid := g.mGid
  sgid := src.gid
  dlid := g.mLid
  slid := src.portData.lid
  flowLabel := g.flowLabel
  hopLimit := g.hopLimit
  reversible := 1
  pKey := g.pKey
  sl := g.sl
  mtuSelector := prEq
  mtu := g.mtu
  rateSelector := prEq
  rate := g.rate
  pktLifeTimeSelector := prEq
  pktLifeTime := g.life

def saGroupPathRecordSet (q : PathQuery) (src : PathEnd f) (g : PathGroup) : List IbPathRecord :=
  if saTemplateTestNoinc (createIbMask q.mask) q.record (groupPathRecord src g) then
    [groupPathRecord src g]
  else []

def pathsToGroup (maip : PathMai) (s : PathSource f) (g : PathGroup) : List IbPathRecord :=
  match smFindMulticastMember g.toMcGroup s.src.gid with
  | none => []
  | some _ => saGroupPathRecordSet (requestedQuery maip) s.src g

def destinationPaths (env : RequestEnv f) (maip : PathMai) (fuel : Nat) (s : PathSource f) :
    Option PathBody :=
  if ¬maip.mask.hasAny PathMask.noDst then
    (saPathRecordWildcard env.toPathEnv (requestedQuery maip) fuel [] s.numbPath s.reqNodep
      s.src).map fun r =>
        { status := if r.1 = .ok then none else madStatusSaNoResources, records := r.2 }
  else
    let found := requestedDst env maip
    match found.2 with
    | .error status => some { locks := found.1, status := status }
    | .ok (.port dst) =>
      (pathsToPort env maip fuel s dst).map fun b => { b with locks := found.1 }
    | .ok (.group g) =>
      some { locks := found.1, dstIsGroup := true, records := pathsToGroup maip s g }

/-! ## `sa_PathRecord` -/

/-- What a call has done to the locks, and the MAD it leaves. -/
structure PathOutcome where
  locks : List LockEvent
  replied : Bool
  status : Nat
  records : List IbPathRecord

def replyPathRecord (maip : PathMai) (b : PathBody) : PathOutcome :=
  let status := b.status.getD maip.status
  let locks := .take .topology :: b.locks ++
    (.giveBack .topology :: if b.dstIsGroup then [.giveBack .mcGroups] else [])
  if status ≠ madStatusOk then ⟨locks, true, status, b.records⟩
  else if b.records.length = 0 then ⟨locks, true, madStatusSaNoRecords, []⟩
  else if maip.method = saCmGet ∧ b.records.length ≠ 1 then
    ⟨locks, true, madStatusSaTooManyRecs, []⟩
  else ⟨locks, true, madStatusOk, b.records⟩

/-- `sa_PathRecord`, `none` when the fuel runs out in a call of `sa_PathRecord_Set`. -/
def saPathRecord (env : RequestEnv f) (maip : PathMai) (fuel : Nat) : Option PathOutcome :=
  if maip.cversion ≠ saMadCversion then some ⟨[], true, madStatusBadClass, []⟩
  else if maip.methodOk ∧ maip.tooShort then
    -- the only return in between
    some ⟨[.take .topology], false, madStatusSaReqInvalid, []⟩
  else
    match sourceChecks env maip with
    | .error status => some (replyPathRecord maip { status := status })
    | .ok s => (destinationPaths env maip fuel s).map (replyPathRecord maip)

end OpaFm.PathRecord
