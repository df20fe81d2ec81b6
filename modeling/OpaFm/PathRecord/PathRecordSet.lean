import OpaFm.Multicast.McMemberRecord
import OpaFm.Partition.VirtualFabric
import OpaFm.PathRecord.Walk

/-!
# Path records

`sa_PathRecord_Set` selects the virtual fabrics of a query, finds the values of the path and issues
a record for every pair of LIDs and every group of virtual fabrics with one P_Key and one SL.
-/

namespace OpaFm.PathRecord

section

open OpaFm.Fabric OpaFm.Multicast OpaFm.Partition

/-! ## Records -/

structure IbPathRecord where
  serviceId : Nat := 0
  dgid : IbGid := 0
  sgid : IbGid := 0
  dlid : Nat := 0
  slid : Nat := 0
  rawTraffic : Nat := 0
  reserved : Nat := 0
  flowLabel : Nat := 0
  hopLimit : Nat := 0
  tClass : Nat := 0
  reversible : Nat := 0
  numbPath : Nat := 0
  pKey : Nat := 0
  qosClass : Nat := 0
  sl : Nat := 0
  mtuSelector : Nat := 0
  mtu : Nat := 0
  rateSelector : Nat := 0
  rate : Nat := 0
  pktLifeTimeSelector : Nat := 0
  pktLifeTime : Nat := 0
  preference : Nat := 0
  reserved2 : Nat := 0
  deriving DecidableEq, Repr

/-- `PathRecordFieldMask`: the field of each bit of a component mask. -/
def pathRecordFields : List (IbPathRecord → Nat) :=
  [fun r => r.serviceId / 0x100000000, fun r => r.serviceId % 0x100000000,
    fun r => r.dgid.toNat, fun r => r.sgid.toNat, IbPathRecord.dlid, IbPathRecord.slid,
    IbPathRecord.rawTraffic, IbPathRecord.reserved, IbPathRecord.flowLabel, IbPathRecord.hopLimit,
    IbPathRecord.tClass, IbPathRecord.reversible, IbPathRecord.numbPath, IbPathRecord.pKey,
    IbPathRecord.qosClass, IbPathRecord.sl, IbPathRecord.mtuSelector, IbPathRecord.mtu,
    IbPathRecord.rateSelector, IbPathRecord.rate, IbPathRecord.pktLifeTimeSelector,
    IbPathRecord.pktLifeTime, IbPathRecord.preference, IbPathRecord.reserved2]

/-- The components that `create_ib_mask` takes out of the comparison: service ID, GIDs, LIDs,
reversible, number of paths, P_Key, SL, and MTU, rate and lifetime with their selectors. -/
def manualComponents : CompMask := 0x3FB83F

/-- `create_ib_mask`, which for path records does not fail. -/
def createIbMask (mask : CompMask) : CompMask := mask &&& ~~~manualComponents

/-- `sa_template_test_noinc`: the record has what the template asks for. -/
def saTemplateTestNoinc (template : CompMask) (query record : IbPathRecord) : Bool :=
  pathRecordFields.zipIdx.all fun x => !template.getLsbD x.2 || x.1 query = x.1 record

/-! ## Virtual fabrics -/

/-- A virtual fabric with the lifetime that its configuration gives. -/
structure PathVF extends ServiceVF where
  pktLifetimeSpecified : Bool := false
  pktLifetimeMult : Nat := 0

/-- `VirtualFabrics_t`, with SLs below `MAX_SLS`. -/
structure PathVFs where
  vFabric : List PathVF
  length_le : vFabric.length ≤ maxVfabrics
  baseSl_lt : ∀ v ∈ vFabric, v.baseSl < 16

def PathVFs.services (vfs : PathVFs) : ServiceVFs where
  vFabric := vfs.vFabric.map PathVF.toServiceVF
  length_le := (List.length_map PathVF.toServiceVF).trans_le vfs.length_le

def PathVF.lifeMult (v : PathVF) : Nat := if v.pktLifetimeSpecified then v.pktLifetimeMult else 0

/-- What the records of a group of virtual fabrics share. -/
structure VfPath where
  pkey : Nat
  sl : Nat
  vfMtu : Nat
  vfRate : Nat
  lifeMult : Nat
  deriving DecidableEq, Repr

def VfPath.first (p : PathParams) (v : PathVF) : VfPath where
  pkey := v.pkey
  sl := v.baseSl
  vfMtu := min p.mtu v.maxMtuInt
  vfRate := slowerRate p.rate v.maxRateInt
  lifeMult := v.lifeMult

def VfPath.sameAs (g : VfPath) (v : PathVF) : Bool :=
  pKeyValue g.pkey = pKeyValue v.pkey ∧ g.sl = v.baseSl

def VfPath.merge (g : VfPath) (v : PathVF) : VfPath :=
  { g with
    vfMtu := if v.maxMtuInt < g.vfMtu then v.maxMtuInt else g.vfMtu
    vfRate := slowerRate g.vfRate v.maxRateInt
    lifeMult :=
      if v.pktLifetimeSpecified ∧ g.lifeMult < v.pktLifetimeMult then v.pktLifetimeMult
      else g.lifeMult }

def mergeStep (vfs : PathVFs) (s : VfPath × Finset Nat) (vf2 : Nat) : VfPath × Finset Nat :=
  if vf2 ∈ s.2 then
    match vfs.vFabric[vf2]? with
    | none => s
    | some v => if s.1.sameAs v then (s.1.merge v, s.2.erase vf2) else s
  else s

/-- The loop over `vf2`: the bits after `vf`, those of the same path cleared. -/
def mergeVfs (vfs : PathVFs) (vf : Nat) (s : VfPath × Finset Nat) : VfPath × Finset Nat :=
  (List.range' (vf + 1) (maxVfabrics - (vf + 1))).foldl (mergeStep vfs) s

/-! ## `sa_PathRecord_Set` -/

/-- What a query is answered from besides the topology.  `bitset_init` may fail, for a lack of
memory, at any call; calls are told apart by the destination. -/
structure PathEnv where
  vfs : PathVFs
  pathSelection : PathMode
  saMaxPathRecords : Nat
  saDynamicPlt : Nat → Nat
  saPacketLifetimeN2 : Nat
  bitsetInit : Nat → Bool

/-- The query, with the values that `sa_PathRecord` has taken out of it. -/
structure PathQuery where
  mask : CompMask
  record : IbPathRecord
  slid : BitVec 16
  pkey : Nat
  serviceId : Nat
  serviceIdCheck : Bool
  sl : Nat

variable {f : PathFabric}

def PathEnd.pathPort (e : PathEnd f) : PathPort := ⟨e.addr, e.portData⟩

def PathEnd.pKeyPort (e : PathEnd f) : PKeyPort :=
  ⟨e.addr, f.pPKey e.nodep.index e.port.index⟩

def PathEnd.gid (e : PathEnd f) : IbGid := f.gid e.nodep.index e.port.index

def selectedVfs (env : PathEnv) (q : PathQuery) (src dst : PathEnd f) : Finset Nat :=
  let filter : PathFilter := ⟨src.pathPort, dst.pathPort, q.pkey, q.sl, q.sl⟩
  if q.serviceIdCheck then smGetValidatedServiceIDVFs env.vfs.services filter q.serviceId ∅
  else smGetValidatedVFs env.vfs.services filter ∅

def hopLifeTime (env : PathEnv) (hopCount : Nat) : Nat :=
  if hopCount = 0 then 0
  else if env.saDynamicPlt 0 = 0 then env.saPacketLifetimeN2
  else if hopCount < 8 then env.saDynamicPlt hopCount
  else env.saDynamicPlt 9

/-- The record that `sa_FillPathRecord` fills in; SL, MTU, rate and lifetime are bit fields. -/
def pathRecord (env : PathEnv) (q : PathQuery) (src dst : PathEnd f) (hopCount : Nat)
    (x : VfPath × Nat × Nat) : IbPathRecord where
  serviceId := q.serviceId
  dgid := dst.gid
  sgid := src.gid
  dlid := x.2.2
  slid := x.2.1
  reversible := 1
  pKey := smGetPortPkey x.1.pkey src.pKeyPort
  sl := x.1.sl % 16
  mtuSelector := prEq
  mtu := x.1.vfMtu % 64
  rateSelector := prEq
  rate := x.1.vfRate % 64
  pktLifeTimeSelector := prEq
  pktLifeTime := (hopLifeTime env hopCount % 64 + x.1.lifeMult) % 64

/-- `sa_FillPathRecord`: the record is appended if it passes the template. -/
def saFillPathRecord (env : PathEnv) (q : PathQuery) (src dst : PathEnd f) (hopCount : Nat)
    (x : VfPath × Nat × Nat) (records : List IbPathRecord) : List IbPathRecord :=
  let record := pathRecord env q src dst hopCount x
  if saTemplateTestNoinc (createIbMask q.mask) q.record record then records ++ [record] else records

/-- The limits after each record, `numPath` of 0 for none. -/
def reachedLimit (env : PathEnv) (numPath : Nat) (records : List IbPathRecord) : Bool :=
  env.saMaxPathRecords ≤ records.length ∨ (numPath ≠ 0 ∧ numPath ≤ records.length)

/-- The loops over pairs of LIDs.  The flag says whether they were left for `done_PathRecordSet`. -/
def fillLids (env : PathEnv) (q : PathQuery) (src dst : PathEnd f) (hopCount numPath : Nat)
    (g : VfPath) : List (Nat × Nat) → List IbPathRecord → List IbPathRecord × Bool
  | [], records => (records, false)
  | lids :: rest, records =>
    let records := saFillPathRecord env q src dst hopCount (g, lids) records
    if reachedLimit env numPath records then (records, true)
    else fillLids env q src dst hopCount numPath g rest records

/-- The loop over `vf`, over what is left of the positions. -/
def fillVfs (env : PathEnv) (q : PathQuery) (src dst : PathEnd f) (p : PathParams)
    (numPath : Nat) (lids : List (Nat × Nat)) :
    List Nat → Finset Nat → List IbPathRecord → List IbPathRecord
  | [], _, records => records
  | vf :: rest, vfs, records =>
    if vf ∈ vfs then
      match env.vfs.vFabric[vf]? with
      | none => fillVfs env q src dst p numPath lids rest vfs records
      | some v =>
        let merged := mergeVfs env.vfs vf (VfPath.first p v, vfs)
        let filled := fillLids env q src dst p.hopCount numPath merged.1 lids records
        if filled.2 then filled.1
        else fillVfs env q src dst p numPath lids rest merged.2 filled.1
    else fillVfs env q src dst p numPath lids rest vfs records

/-- `VSTATUS_OK`, `VSTATUS_BAD` and `VSTATUS_NOMEM`. -/
inductive PathStatus where
  | ok
  | bad
  | nomem
  deriving DecidableEq, Repr

/-- `sa_PathRecord_Set`, `none` when the fuel of the hop walk or of the loop over LIDs runs out. -/
def saPathRecordSet (env : PathEnv) (q : PathQuery) (fuel : Nat) (records : List IbPathRecord)
    (numPath : Nat) (src dst : PathEnd f) (dlid : BitVec 16) :
    Option (PathStatus × List IbPathRecord) :=
  if ¬env.bitsetInit dst.addr then some (.nomem, records)
  else
    let vfs := selectedVfs env q src dst
    if vfs = ∅ then some (.ok, records)
    else
      (pathParams fuel src dst).bind fun params =>
        match params with
        | none => some (.bad, records)
        | some p =>
          let lens := smSelectPathLids src.endPort q.slid.toNat dst.endPort dlid.toNat
          if lens.1.2 = 0 ∧ lens.2.2 = 0 then some (.ok, records)
          else
            (pathLids fuel env.pathSelection src.endPort q.slid.toNat dst.endPort
                dlid.toNat).map fun lids =>
              (.ok, fillVfs env q src dst p numPath lids (List.range maxVfabrics) vfs records)

end

/-!
## Queries without a destination

`sa_PathRecord_Wildcard` goes through the end ports of all nodes and has `sa_PathRecord_Set` append
the records for each that the requesting node may see.
-/

section

open OpaFm.Fabric OpaFm.Partition

variable {f : PathFabric}

/-! ### P_Key filters -/

def leadingKeys (t : PKeyTable) : List Nat := t.toList.takeWhile fun k => k ≠ 0

/-- `sa_Compare_PKeys`, true for `VSTATUS_OK`. -/
def saComparePKeys (key1 key2 : PKeyTable) : Bool :=
  if key1.entry 0 = 0 ∧ key2.entry 0 = 0 then true
  else
    (leadingKeys key1).any fun k1 => (leadingKeys key2).any fun k2 =>
      pKeyValue k1 = pKeyValue k2 ∧ (pKeyIsFull k1 ∨ pKeyIsFull k2)

/-- `sa_Compare_Node_Port_PKeys`, true for `VSTATUS_OK`. -/
def saCompareNodePortPKeys (nodep : Node) (srcport : PathEnd f) : Bool :=
  if ¬srcport.port.state.isUp then false
  else if srcport.nodep.index = nodep.index then true
  else
    (endPorts nodep).any fun p =>
      smValidPort p ∧ p.state.isUp ∧
        saComparePKeys (f.pPKey nodep.index p.index)
          (f.pPKey srcport.nodep.index srcport.port.index)

/-! ### `sa_PathRecord_Wildcard` -/

/-- The end ports of a node that `sm_valid_port` accepts, in order. -/
def nodeEnds (n : { n : Node // n ∈ f.topology.nodes }) : List (PathEnd f) :=
  (endPorts n.1).attach.filterMap fun p =>
    match hd : p.1.portData with
    | none => none
    | some d => some ⟨n.1, n.2, p.1, p.2, d, hd⟩

def wildcardDst (q : PathQuery) (reqNodep : Node) (src dst : PathEnd f) : Bool :=
  if ¬dst.port.state.isUp then false
  else if q.pkey ≠ 0 ∧ ¬smValidatePortPKey q.pkey dst.pKeyPort ∧ src.addr ≠ dst.addr then false
  else saCompareNodePortPKeys reqNodep dst

/-- The loop over the end ports of a node.  Any status but `ok` ends the loop over nodes too. -/
def wildcardEnds (env : PathEnv) (q : PathQuery) (fuel numPath : Nat) (reqNodep : Node)
    (src : PathEnd f) : List (PathEnd f) → List IbPathRecord →
    Option (PathStatus × List IbPathRecord)
  | [], records => some (.ok, records)
  | dst :: rest, records =>
    if ¬wildcardDst q reqNodep src dst then
      wildcardEnds env q fuel numPath reqNodep src rest records
    else
      let pathCount := records.length
      (saPathRecordSet env q fuel records (pathCount + numPath) src dst 0xFFFF).bind fun r =>
        match r.1 with
        | .ok =>
          if env.saMaxPathRecords < r.2.length then some (.bad, [])
          else if numPath ≠ 0 ∧ numPath ≤ r.2.length - pathCount then some (.ok, r.2)
          else wildcardEnds env q fuel numPath reqNodep src rest r.2
        | .nomem => some (.nomem, r.2)
        -- a destination without a usable path is passed over
        | .bad => wildcardEnds env q fuel numPath reqNodep src rest r.2

def wildcardNodes (env : PathEnv) (q : PathQuery) (fuel numPath : Nat) (reqNodep : Node)
    (src : PathEnd f) : List { n : Node // n ∈ f.topology.nodes } → List IbPathRecord →
    Option (PathStatus × List IbPathRecord)
  | [], records => some (.ok, records)
  | n :: rest, records =>
    (wildcardEnds env q fuel numPath reqNodep src (nodeEnds n) records).bind fun r =>
      if r.1 = .ok then wildcardNodes env q fuel numPath reqNodep src rest r.2 else some r

/-- `sa_PathRecord_Wildcard`, `none` when the fuel runs out in a call of `sa_PathRecord_Set`. -/
def saPathRecordWildcard (env : PathEnv) (q : PathQuery) (fuel : Nat)
    (records : List IbPathRecord) (numPath : Nat) (reqNodep : Node) (src : PathEnd f) :
    Option (PathStatus × List IbPathRecord) :=
  wildcardNodes env q fuel numPath reqNodep src f.topology.nodes.attach records

end

/-!
## The route of a packet

What a path record promises is about the packets that are sent with its DLID: every switch on their
way forwards them by its own entry for that LID.
-/

open OpaFm.Fabric

variable {f : PathFabric}

def farEnd (m : Node) (portno : Option Nat) : Option PortData :=
  portno.bind fun j => (m.port j).portData

/-- The ports that a packet passes from node `n` on, which it has entered through port `i`.  It is
`none` when the packet does not get to the destination, or the fuel runs out. -/
def packetRoute (lid : Nat) (dst : PathEnd f) : Nat → Node → Option Nat → Option (List PortData)
  | 0, _, _ => none
  | fuel + 1, n, i =>
    if n.nodeType ≠ .switch then
      if n.index = dst.nodep.index ∧ i = some dst.port.index then some [] else none
    else
      (egressPort f n lid).bind fun p =>
        if p.port.index = 0 then
          if n.index = dst.nodep.index ∧ dst.port.index = 0 then some [] else none
        else
          (smFindNode f.topology p.port.nodeno).bind fun m =>
            (packetRoute lid dst fuel m p.port.portno).map fun rest =>
              p.data :: (farEnd m p.port.portno).toList ++ rest

def sentRoute (lid fuel : Nat) (src dst : PathEnd f) : Option (List PortData) :=
  if src.addr = dst.addr then some []
  else if src.nodep.nodeType = .switch then
    packetRoute lid dst fuel src.nodep (some src.port.index)
  else
    (smFindNode f.topology src.port.nodeno).bind fun m =>
      (packetRoute lid dst fuel m src.port.portno).map fun rest =>
        src.portData :: (farEnd m src.port.portno).toList ++ rest

def Carries (mtu rate : Nat) (d : PortData) : Prop :=
  mtu ≤ d.maxVlMtu ∧ linkrateGt rate d.rate = false

/-- Packets with the DLID get to the destination, through links that allow the MTU and the rate. -/
def Attainable (src dst : PathEnd f) (dlid mtu rate : Nat) : Prop :=
  ∃ fuel route, sentRoute dlid fuel src dst = some route ∧ ∀ d ∈ route, Carries mtu rate d

end OpaFm.PathRecord
