import OpaFm.Lib.WordBits
import OpaFm.Cs.Hashtable
import Mathlib.Data.List.Basic

/-!
# Event subscriptions

`sa_InformInfo` adds and removes subscriptions.  A request in the format of the InfiniBand class
is converted to the STL form first, and its reply back.  Registers are as a little-endian host
reads them.
-/

namespace OpaFm.Sa

open OpaFm.Cs OpaFm.Lib

/-! ## Byte order -/

def ntoh16 : BitVec 16 → BitVec 16 := swapHalves (id : BitVec 8 → BitVec 8)
def ntoh32 : BitVec 32 → BitVec 32 := swapHalves ntoh16
def ntoh64 : BitVec 64 → BitVec 64 := swapHalves ntoh32

def bswapIbGid : BitVec 128 → BitVec 128 := swapHalves ntoh64

/-! ## Constants -/

def unicastLidMax : BitVec 32 := 0xBFFF
def permissiveLid : BitVec 16 := 0xFFFF
def stlLidPermissive : BitVec 32 := 0xffffffff

def noticeTypeSecurity : BitVec 16 := 2

def ibPortDown : Nat := 1

def saCmSet : Nat := 2
def stlSaClassVersion : Nat := 0x80
def ibSubnAdmClassVersion : Nat := 2

def madStatusOk : Nat := 0
def madStatusBusy : Nat := 1
def madStatusBadClass : Nat := 4
def madStatusBadMethod : Nat := 8
def madStatusSaReqInvalid : Nat := 0x200
def madStatusSaNoRecords : Nat := 0x300

inductive VStatus where
  | ok
  | bad
  | noMem
  deriving DecidableEq, Repr

/-! ## InformInfo -/

/-- `STL_INFORM_INFO`, with the registers of its generic form. -/
structure StlInformInfo where
  gid : BitVec 128
  lidRangeBegin : BitVec 32
  lidRangeEnd : BitVec 32
  isGeneric : BitVec 8
  subscribe : BitVec 8
  type : BitVec 16
  reserved1 : BitVec 16
  trapNumber : BitVec 16
  u1 : BitVec 32
  u2 : BitVec 32
  deriving DecidableEq

/-- `IB_INFORM_INFO`.  Here `u2` holds the queue pair and `u` the producer. -/
structure IbInformInfo where
  gid : BitVec 128
  lidRangeBegin : BitVec 16
  lidRangeEnd : BitVec 16
  reserved : BitVec 16
  isGeneric : BitVec 8
  subscribe : BitVec 8
  type : BitVec 16
  trapNumber : BitVec 16
  u2 : BitVec 32
  u : BitVec 32
  deriving DecidableEq

/-! The bit-fields of the two registers have the same places in both formats. -/

/-- `QPNumber:24, Reserved:3, RespTimeValue:5`, the queue pair in the high bits. -/
def qpNumberOf (r : BitVec 32) : BitVec 24 := r.extractLsb' 8 24
def respTimeValueOf (r : BitVec 32) : BitVec 5 := r.extractLsb' 0 5

def producerTypeOf (r : BitVec 32) : BitVec 24 := r.extractLsb' 0 24

def setQpNumber (r srcqp : BitVec 32) : BitVec 32 := srcqp.setWidth 24 ++ r.extractLsb' 0 8

def clearQpReserved (r : BitVec 32) : BitVec 32 := r &&& 0xFFFFFF1F

def clearProducerReserved (r : BitVec 32) : BitVec 32 := r &&& 0x00FFFFFF

namespace StlInformInfo

def qpNumber (i : StlInformInfo) : BitVec 24 := qpNumberOf i.u1
def respTimeValue (i : StlInformInfo) : BitVec 5 := respTimeValueOf i.u1
def producerType (i : StlInformInfo) : BitVec 24 := producerTypeOf i.u2

def bswap (i : StlInformInfo) : StlInformInfo :=
  { i with
    gid := bswapIbGid i.gid
    lidRangeBegin := ntoh32 i.lidRangeBegin
    lidRangeEnd := ntoh32 i.lidRangeEnd
    type := ntoh16 i.type
    trapNumber := ntoh16 i.trapNumber
    u1 := ntoh32 i.u1
    u2 := ntoh32 i.u2 }

end StlInformInfo

/-- The conversion of a request in `sa_InformInfo`. -/
def IbInformInfo.toStl (i : IbInformInfo) : StlInformInfo where
  gid := bswapIbGid i.gid
  isGeneric := i.isGeneric
  subscribe := i.subscribe
  lidRangeBegin :=
    let lid := (ntoh16 i.lidRangeBegin).setWidth 32
    if lid = permissiveLid.setWidth 32 then stlLidPermissive else lid
  lidRangeEnd := (ntoh16 i.lidRangeEnd).setWidth 32
  type := ntoh16 i.type
  reserved1 := 0
  trapNumber := ntoh16 i.trapNumber
  u1 := clearQpReserved (ntoh32 i.u2)
  u2 := clearProducerReserved (ntoh32 i.u)

def StlInformInfo.toIb (i : StlInformInfo) : IbInformInfo where
  gid := bswapIbGid i.gid
  isGeneric := i.isGeneric
  subscribe := i.subscribe
  lidRangeBegin :=
    if i.lidRangeBegin = stlLidPermissive then permissiveLid
    else (ntoh32 i.lidRangeBegin).setWidth 16
  lidRangeEnd := (ntoh32 i.lidRangeEnd).setWidth 16
  type := ntoh16 i.type
  reserved := 0
  trapNumber := ntoh16 i.trapNumber
  -- both registers are in network order when the reserved bits are cleared
  u2 := clearQpReserved (ntoh32 i.u1)
  u := clearProducerReserved (ntoh32 i.u2)

/-! ## The subscriber table -/

structure SubscriberKey where
  subscriberGid : BitVec 128
  lid : BitVec 16
  trapnum : BitVec 16
  qpn : BitVec 32
  producer : BitVec 8
  rtv : BitVec 8
  pkey : BitVec 16
  qkey : BitVec 32
  startLid : BitVec 16
  endLid : BitVec 16
  ibMode : Bool
  deriving DecidableEq

def saSubscriberHashFromKey (k : SubscriberKey) : BitVec 64 :=
  (k.lid.setWidth 64 <<< 48) ||| (k.trapnum.setWidth 64 <<< 32) ||| (k.qpn.setWidth 64 <<< 8) |||
    ((k.producer.setWidth 64 &&& 0x7) <<< 5) ||| k.rtv.setWidth 64

def saSubscriberCompare (k k' : SubscriberKey) : Bool :=
  k.subscriberGid = k'.subscriberGid ∧ k.lid = k'.lid ∧ k.trapnum = k'.trapnum ∧
    k.qpn = k'.qpn ∧ k.producer = k'.producer ∧ k.rtv = k'.rtv ∧ k.pkey = k'.pkey ∧
    k.qkey = k'.qkey

def subscriberFns : HashFns SubscriberKey where
  hashfn := saSubscriberHashFromKey
  eqfn := saSubscriberCompare

structure InformInfoRecord where
  subscriberLid : BitVec 32
  enum : BitVec 16
  informInfoData : StlInformInfo
  deriving DecidableEq

/-- `saSubscribers.subsMap` and `saInformCount`. -/
structure Subscribers where
  subsMap : CsHashtable SubscriberKey InformInfoRecord
  saInformCount : BitVec 16

/-- `sa_SubscriberInit`, with `saInformCount` as it is set at the start. -/
def saSubscriberInit (mem : Bool) : Option Subscribers :=
  (CsHashtable.csCreateHashtable 16 mem).map fun subsMap => ⟨subsMap, 1⟩

/-! ## What a request meets -/

structure AddrInfo where
  slid : BitVec 16
  srcqp : BitVec 32
  pkey : BitVec 16
  qkey : BitVec 32

structure SaPort where
  lid : BitVec 32
  gid : BitVec 128

/-- An end port of a channel adapter. -/
structure CaEndPort where
  valid : Bool
  state : Nat
  lid : BitVec 32
  lmc : Nat

/-- What the look-ups in `old_topology` and the authentication answer, whether the lock of the
subscribers is had, and which allocations succeed. -/
structure InformEnv where
  findActivePortLid : BitVec 32 → Option SaPort
  findActivePortGuid : BitVec 64 → Option SaPort
  caEndPorts : List CaEndPort
  authenticatePath : BitVec 16 → BitVec 32 → Bool
  authenticateAccess : BitVec 16 → BitVec 32 → Bool
  activateInProgress : Bool
  smKey : BitVec 64
  subsLock : Bool
  keyMem : Bool
  recordMem : Bool
  tableMem : Bool
  entryMem : Bool

/-- `old_topology_lock` and `saSubscribers.subsLock`. -/
inductive InformLock where
  | topology
  | subscribers
  deriving DecidableEq, Repr

inductive LockEvent where
  | take (lock : InformLock)
  | giveBack (lock : InformLock)
  deriving DecidableEq, Repr

def LockEvent.lock : LockEvent → InformLock
  | take lock => lock
  | giveBack lock => lock

/-- What a call returns and leaves; `status` is `maip->base.status`. -/
structure InformOutcome where
  result : VStatus
  status : Nat
  iip : StlInformInfo
  subs : Subscribers
  locks : List LockEvent

/-! ## Subscribing -/

/-- The request as `sa_InformInfo_Subscribe` changes it first. -/
def subscribedInfo (addr : AddrInfo) (iip : StlInformInfo) : StlInformInfo :=
  { iip with
    u1 := clearQpReserved (setQpNumber iip.u1 addr.srcqp)
    u2 := clearProducerReserved iip.u2
    reserved1 := 0 }

/-- A check that fails: the status it stores, if any, and whether it calls `vs_rwunlock`. -/
structure Refusal where
  status : Option Nat
  unlocks : Bool

structure LidRange where
  validate : Bool
  first : BitVec 32
  last : BitVec 32

def portMissing (env : InformEnv) : Nat :=
  if env.activateInProgress then madStatusBusy else madStatusSaReqInvalid

/-- `LIDRangeBegin` and `LIDRangeEnd`, and whether access to the range is validated. -/
def subscribeRange (env : InformEnv) (iip : StlInformInfo) : Except Refusal LidRange :=
  if iip.gid ≠ 0 then
    let guid := ntoh64 (iip.gid.extractLsb' 0 64)
    if guid = 0 then .error ⟨none, true⟩
    else
      match env.findActivePortGuid guid with
      | none => .error ⟨some (portMissing env), true⟩
      | some portp => .ok ⟨true, portp.lid, portp.lid⟩
  else if iip.lidRangeBegin = stlLidPermissive then .ok ⟨false, 1, unicastLidMax⟩
  else if iip.lidRangeBegin > unicastLidMax ∨ iip.lidRangeEnd > unicastLidMax then
    .error ⟨none, false⟩
  else if iip.lidRangeEnd ≠ 0 then .ok ⟨true, iip.lidRangeBegin, iip.lidRangeEnd⟩
  else .ok ⟨true, iip.lidRangeBegin, iip.lidRangeBegin⟩

def portAllowed (env : InformEnv) (slid : BitVec 16) (range : LidRange) (p : CaEndPort) : Bool :=
  if !p.valid ∨ p.state ≤ ibPortDown then true
  else
    let topLid := p.lid + (1#32 <<< p.lmc) - 1
    if range.first ≤ topLid ∧ p.lid ≤ range.last then
      env.authenticatePath slid p.lid && env.authenticateAccess slid p.lid
    else true

def rangeAllowed (env : InformEnv) (slid : BitVec 16) (range : LidRange) : Bool :=
  !range.validate || env.caEndPorts.all (portAllowed env slid range)

def subscribeChecks (env : InformEnv) (addr : AddrInfo) (iip : StlInformInfo) :
    Except Refusal (SaPort × LidRange) :=
  match env.findActivePortLid (addr.slid.setWidth 32) with
  | none => .error ⟨some (portMissing env), true⟩
  | some subsPort =>
    match subscribeRange env iip with
    | .error r => .error r
    | .ok range =>
      if rangeAllowed env addr.slid range then .ok (subsPort, range)
      else .error ⟨some madStatusSaReqInvalid, true⟩

def subscriberKey (addr : AddrInfo) (subsPort : SaPort) (iip : StlInformInfo)
    (startLid endLid : BitVec 16) (ibMode : Bool) : SubscriberKey where
  subscriberGid := subsPort.gid
  lid := addr.slid
  trapnum := iip.trapNumber
  qpn := iip.qpNumber.setWidth 32
  producer := iip.producerType.setWidth 8
  rtv := iip.respTimeValue.setWidth 8
  pkey := addr.pkey
  qkey := addr.qkey
  startLid := startLid
  endLid := endLid
  ibMode := ibMode

/-- The record of the key is replaced, or added.  The key that is stored stays the first one. -/
def storeSubscription (env : InformEnv) (s : Subscribers) (k : SubscriberKey) (lid : BitVec 32)
    (iip : StlInformInfo) : VStatus × Subscribers :=
  match s.subsMap.csHashtableSearch subscriberFns k with
  | none =>
    if !env.recordMem then (.noMem, s)
    else
      let r : InformInfoRecord := ⟨lid, s.saInformCount, iip⟩
      let t := s.subsMap.csHashtableInsert subscriberFns k r env.tableMem env.entryMem
      (if t.2 then .ok else .bad, ⟨t.1, s.saInformCount + 1⟩)
  | some r =>
    let r : InformInfoRecord := { r with informInfoData := iip }
    (.ok, { s with subsMap := (s.subsMap.csHashtableChange subscriberFns k r).1 })

def saInformInfoSubscribe (env : InformEnv) (s : Subscribers) (addr : AddrInfo) (status : Nat)
    (iip : StlInformInfo) (ibMode : Bool) : InformOutcome :=
  let iip := subscribedInfo addr iip
  match subscribeChecks env addr iip with
  | .error r =>
    ⟨.bad, r.status.getD status, iip, s,
      .take .topology :: if r.unlocks then [.giveBack .topology] else []⟩
  | .ok (subsPort, range) =>
    let locks := [.take .topology, .giveBack .topology]
    if !env.keyMem then ⟨.noMem, status, iip, s, locks⟩
    else
      let k := subscriberKey addr subsPort iip (range.first.setWidth 16) (range.last.setWidth 16)
        ibMode
      if !env.subsLock then ⟨.bad, status, iip, s, locks⟩
      else
        let stored := storeSubscription env s k subsPort.lid iip
        ⟨stored.1, status, iip, stored.2, locks ++ [.take .subscribers, .giveBack .subscribers]⟩

/-! ## Unsubscribing -/

/-- The range is not part of the key here, and `ibMode` is left as it is on the stack. -/
def saInformInfoUnsubscribe (env : InformEnv) (s : Subscribers) (addr : AddrInfo) (status : Nat)
    (iip : StlInformInfo) : InformOutcome :=
  let locks := [.take .topology, .giveBack .topology]
  match env.findActivePortLid (addr.slid.setWidth 32) with
  | none => ⟨.bad, madStatusSaReqInvalid, iip, s, locks⟩
  | some subsPort =>
    let k := subscriberKey addr subsPort iip 0 0 false
    if !env.subsLock then ⟨.bad, status, iip, s, locks⟩
    else
      let t := s.subsMap.csHashtableRemove subscriberFns k
      ⟨.ok, if t.2.isSome then status else madStatusSaNoRecords, iip, { s with subsMap := t.1 },
        locks ++ [.take .subscribers, .giveBack .subscribers]⟩

/-! ## `sa_InformInfo` -/

/-- A request, its payload as each of the two formats reads it. -/
structure InformMai where
  method : Nat
  cversion : Nat
  status : Nat := madStatusOk
  addrInfo : AddrInfo
  smKey : BitVec 64
  stlData : StlInformInfo
  ibData : IbInformInfo

inductive InformReply where
  | empty
  | stl (data : StlInformInfo)
  | ib (data : IbInformInfo)

structure InformReplied where
  status : Nat
  reply : InformReply
  subs : Subscribers
  locks : List LockEvent

def notTrusted (env : InformEnv) (maip : InformMai) (info : StlInformInfo) : Bool :=
  info.type = noticeTypeSecurity ∧ env.smKey ≠ 0 ∧ maip.smKey ≠ env.smKey

def requestInfo (maip : InformMai) : StlInformInfo :=
  if maip.cversion = stlSaClassVersion then maip.stlData.bswap else maip.ibData.toStl

def handleInform (env : InformEnv) (s : Subscribers) (maip : InformMai) (info : StlInformInfo) :
    InformOutcome :=
  if info.subscribe = 1 then
    if notTrusted env maip info then ⟨.bad, madStatusSaReqInvalid, info, s, []⟩
    else
      saInformInfoSubscribe env s maip.addrInfo maip.status info
        (maip.cversion ≠ stlSaClassVersion)
  else if info.subscribe = 0 then
    saInformInfoUnsubscribe env s maip.addrInfo maip.status info
  else ⟨.bad, maip.status, info, s, []⟩

def InformOutcome.replyInfo (o : InformOutcome) : StlInformInfo :=
  if o.result = .ok then o.iip else { o.iip with subscribe := 0 }

def saInformInfo (env : InformEnv) (s : Subscribers) (maip : InformMai) : InformReplied :=
  if maip.method ≠ saCmSet then ⟨madStatusBadMethod, .empty, s, []⟩
  else if maip.cversion ≠ stlSaClassVersion ∧ maip.cversion ≠ ibSubnAdmClassVersion then
    ⟨madStatusBadClass, .empty, s, []⟩
  else
    let o := handleInform env s maip (requestInfo maip)
    let status :=
      if o.result ≠ .ok ∧ o.status = madStatusOk then madStatusSaReqInvalid else o.status
    let reply :=
      if maip.cversion = stlSaClassVersion then .stl o.replyInfo.bswap else .ib o.replyInfo.toIb
    ⟨status, reply, o.subs, o.locks⟩

/-!
## Traps

Notices are forwarded to the subscribers, and the traps of a port are counted so that a port that
sends too many is disabled.
-/

open OpaFm.Cs

/-! ### Forwarding -/

def trapAll : BitVec 16 := 0xffff
def nodeTypeAll : BitVec 24 := 0xffffff
def noticeProducertypeCa : BitVec 24 := 1
def madSmtPortUp : BitVec 16 := 64
def madSmtMcastGrpDeleted : BitVec 16 := 67

/-- The attributes of a generic `STL_NOTICE`, and its issuer. -/
structure Notice where
  isGeneric : BitVec 1
  type : BitVec 7
  producerType : BitVec 24
  trapNumber : BitVec 16
  issuerLid : BitVec 32

def overSubscribers (t : CsHashtable SubscriberKey InformInfoRecord)
    (pass : StlInformInfo → Bool) : List (SubscriberKey × InformInfoRecord) :=
  if t.entrycount > 0 then t.entries.filter fun x => pass x.2.informInfoData else []

def countsNotice (n : Notice) (info : StlInformInfo) : Bool :=
  info.isGeneric = n.isGeneric.setWidth 8 ∧
    (info.type = trapAll ∨ info.type = n.type.setWidth 16) ∧
      (info.trapNumber = trapAll ∨ info.trapNumber = n.trapNumber)

def smSaGetNoticeCount (t : CsHashtable SubscriberKey InformInfoRecord) (n : Notice) : Nat :=
  (overSubscribers t (countsNotice n)).length

/-- The tests of `sm_sa_forwardNotice` and `sa_Trap`. -/
def forwardsNotice (n : Notice) (info : StlInformInfo) : Bool :=
  if info.isGeneric ≠ n.isGeneric.setWidth 8 then false
  else if info.type ≠ trapAll ∧ info.type ≠ n.type.setWidth 16 then false
  else if info.trapNumber ≠ trapAll ∧ info.trapNumber ≠ n.trapNumber then false
  else if info.producerType ≠ nodeTypeAll ∧ info.producerType ≠ 0 ∧
      info.producerType ≠ n.producerType then
    -- hosts that use the channel adapter for GID in and out of service and for groups
    if n.trapNumber ≥ madSmtPortUp ∧ n.trapNumber ≤ madSmtMcastGrpDeleted then
      info.producerType = noticeProducertypeCa
    else false
  else true

/-- The subscribers that `sa_Trap_Forward` is called for. -/
def smSaForwardNotice (t : CsHashtable SubscriberKey InformInfoRecord) (n : Notice) :
    List SubscriberKey :=
  (overSubscribers t (forwardsNotice n)).map Prod.fst

/-- The loop of `sa_Trap` has the same tests. -/
def saTrapForwards (t : CsHashtable SubscriberKey InformInfoRecord) (n : Notice) :
    List SubscriberKey :=
  (overSubscribers t (forwardsNotice n)).map Prod.fst

/-! ### Counting the traps of a port -/

def vtimer1S : BitVec 64 := 1000000

def smTrapLogSummaryThresholdStart : BitVec 8 := 5

/-- What `sm_setTrapThreshold` and the configuration set. -/
structure TrapConfig where
  suppressTriggerInterval : BitVec 32
  trapThreshold : BitVec 32
  minCount : BitVec 32
  window : BitVec 64

def smSetTrapThreshold (suppressTriggerInterval trapThreshold minTrapCount : BitVec 32) :
    TrapConfig where
  suppressTriggerInterval := suppressTriggerInterval
  trapThreshold := trapThreshold
  minCount := minTrapCount
  window :=
    if trapThreshold = 0 then 0
    else 60 * vtimer1S * minTrapCount.setWidth 64 / trapThreshold.setWidth 64

/-- The trap counts of a port.  `logTrapSummaryThreshold` is that of the port with the LID. -/
structure TrapPort where
  lastTrapTime : BitVec 64 := 0
  suppressTrapLog : Bool := false
  logSuppressedTrapCount : BitVec 8 := 0
  logTrapSummaryThreshold : BitVec 8 := 0
  trapWindowStartTime : BitVec 64 := 0
  trapWindowCount : BitVec 32 := 0

/-- What the look-ups in the topology find for a trap: the port with the LID, whether it is on a
switch and then its external port, and otherwise the switch and its port at the other end. -/
structure TrapSource where
  portValid : Bool := true
  isSwitch : Bool := false
  extPortValid : Bool := true
  neighborIsSwitch : Bool := true
  neighborPortValid : Bool := true

def TrapSource.found (src : TrapSource) : Bool :=
  src.portValid && (!src.isSwitch || src.extPortValid)

def TrapSource.canDisable (src : TrapSource) : Bool :=
  src.isSwitch || (src.neighborIsSwitch && src.neighborPortValid)

/-- A trap, with `timenow` and the `disable` argument. -/
structure TrapArrival where
  timenow : BitVec 64
  disable : Bool
  src : TrapSource

namespace TrapPort

variable (cfg : TrapConfig) (p : TrapPort)

/-- The suppression of the log, and `lastTrapTime`. -/
def suppress (timenow : BitVec 64) : TrapPort :=
  let p :=
    if cfg.suppressTriggerInterval ≠ 0 ∧ p.lastTrapTime ≠ 0 then
      if timenow - p.lastTrapTime < cfg.suppressTriggerInterval.setWidth 64 * vtimer1S then
        if p.suppressTrapLog then { p with logSuppressedTrapCount := p.logSuppressedTrapCount + 1 }
        else { p with suppressTrapLog := true }
      else
        { p with
          suppressTrapLog := false
          logTrapSummaryThreshold := smTrapLogSummaryThresholdStart }
    else p
  { p with lastTrapTime := timenow }

def countTrap (timedelta : BitVec 64) : TrapPort :=
  if timedelta < cfg.window then { p with trapWindowCount := p.trapWindowCount + 1 } else p

/-- `trapWindowCount` is at the minimum in the window or close to it, so the rate is looked at. -/
def checksRate (timedelta : BitVec 64) : Bool :=
  p.trapWindowCount ≥ cfg.minCount ∧ timedelta < cfg.window * 2

def trapRate (timedelta : BitVec 64) : BitVec 64 :=
  60 * p.trapWindowCount.setWidth 64 * vtimer1S / timedelta

def createWindow (timenow timedelta : BitVec 64) : TrapPort :=
  if timedelta > cfg.window then
    { p with trapWindowStartTime := timenow, trapWindowCount := 1 }
  else p

end TrapPort

/-- The port and whether it is disabled; `none` where the division by `timedelta` traps. -/
def saUpdateTrapCountForPort (cfg : TrapConfig) (p : TrapPort) (a : TrapArrival) :
    Option (TrapPort × Bool) :=
  if !a.src.found then some (p, false)
  else
    let p := p.suppress cfg a.timenow
    if cfg.trapThreshold = 0 ∨ !a.disable then some (p, false)
    else
      let timedelta := a.timenow - p.trapWindowStartTime
      let p := p.countTrap cfg timedelta
      if p.checksRate cfg timedelta then
        if timedelta = 0 then none
        else if p.trapRate timedelta ≥ cfg.trapThreshold.setWidth 64 then
          -- without the neighbor's port the call ends before a new window is created
          if !a.src.canDisable then some (p, false)
          else some (p.createWindow cfg a.timenow timedelta, true)
        else some (p.createWindow cfg a.timenow timedelta, false)
      else some (p.createWindow cfg a.timenow timedelta, false)

end OpaFm.Sa
