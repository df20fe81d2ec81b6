import OpaFm.Routing.HostPasses
import Mathlib.Data.Finset.Insert

/-!
# Fat tree routing

The switches of a fat tree are in tiers.  Ports towards an edge switch are chosen by two counters,
one for destinations above and one for destinations below.  `_calculate_balanced_lfts_systematic`
computes the tables of all switches, `_calculate_balanced_lft` that of one.
-/

namespace OpaFm.Routing

open OpaFm.Fabric

/-- What fat tree routing reads; what is known of a switch is by node index. -/
structure FatTree where
  topop : Topology
  path : Nat → Nat → Finset Nat
  qsort : Qsort SwitchportToNextGuid
  spineFirstRouting : Bool
  routeLast : String
  fisOnSameTier : Bool
  tierCount : Nat
  tierSwitches : Nat → List Node
  tierIndex : Nat → Nat
  uplinkTrunkCnt : Nat → Nat
  trunkGrouped : Nat → Bool
  edgeSwitch : Node → Bool

def compareGuids (a b : SwitchportToNextGuid) : Ordering := compare a.guid b.guid

/-- `upDestCount`, `downDestCount` and `isUp`. -/
structure DestCount where
  up : Nat := 0
  down : Nat := 0
  isUp : Bool := true
  deriving DecidableEq, Repr

def DestCount.count (c : DestCount) : Nat := if c.isUp then c.up else c.down

def DestCount.next (c : DestCount) : DestCount :=
  if c.isUp then { c with up := c.up + 1 } else { c with down := c.down + 1 }

namespace FatTree

variable (f : FatTree)

def isSwitchQueued (nodep : Node) : Bool :=
  (List.range f.tierCount).any fun t => (f.tierSwitches t).any fun n => n.index = nodep.index

def hfiTierEnd : Nat := if f.fisOnSameTier then 0 else f.tierCount - 1

def allTierSwitches : List Node := (List.range f.tierCount).flatMap f.tierSwitches

def hfiTierSwitches : List Node := (List.range (f.hfiTierEnd + 1)).flatMap f.tierSwitches

def getPortGroup (load : RouteLoad) (switchp nodep : Node) : List Nat :=
  if nodep.nodeType ≠ .switch then []
  else if nodep.swIdx = switchp.swIdx then []
  else
    (f.qsort.sort compareGuids
      (smRoutingFuncSelectPorts f.topop f.path load f.spineFirstRouting switchp nodep.swIdx
        false)).map fun e => e.portp.index

def startOffset (switchp : Node) (isUp : Bool) : Nat :=
  if isUp then f.tierIndex switchp.index * f.uplinkTrunkCnt switchp.index
  else f.tierIndex switchp.index

/-- The step to the port for the next LID of an end port; LMC LIDs are dispersed to different
switches above. -/
def nextOffset (switchp : Node) (isUp : Bool) (numPorts i : Nat) : Nat :=
  if isUp ∧ 1 < f.uplinkTrunkCnt switchp.index ∧ f.trunkGrouped switchp.index then
    let i := i + f.uplinkTrunkCnt switchp.index
    if i % numPorts = 0 then i + 1 else i
  else i + 1

/-- The loop body for a LID, with the place `i` of its end port. -/
def routeLid (switchp : Node) (portGroup : List Nat) (toSwitchPort : Nat) (c : DestCount)
    (st : LftTables × Nat) (currentLid : Nat) : LftTables × Nat :=
  if portGroup.length = 0 then (st.1.attach switchp currentLid toSwitchPort, st.2)
  else
    (st.1.assign f.topop switchp currentLid
      (portGroup.getD ((st.2 + c.count + f.startOffset switchp c.isUp) % portGroup.length) 0xff),
      f.nextOffset switchp c.isUp portGroup.length st.2)

def routeEndPort (switchp : Node) (portGroup : List Nat) (toSwitchPort : Nat)
    (st : LftTables × DestCount) (portp : Port) : LftTables × DestCount :=
  (((portLids portp).foldl (f.routeLid switchp portGroup toSwitchPort st.2) (st.1, 0)).1,
    st.2.next)

def routeHost (switchp : Node) (portGroup : List Nat) (l : Port × Node)
    (st : LftTables × DestCount) : LftTables × DestCount :=
  (liveEndPorts l.2).foldl (f.routeEndPort switchp portGroup l.1.index) st

def enterGroup (switchp : Node) (portGroup : List Nat) (c : DestCount) : DestCount :=
  { c with
    isUp := (portGroup.head?.bind (smGetPort switchp)).any fun p =>
      p.portData.any fun d => d.uplink }

/-- The passes of `_calculate_balanced_lfts_systematic`. -/
def systematic : HostRouting DestCount where
  topop := f.topop
  sources := f.allTierSwitches
  targets := f.hfiTierSwitches
  edgeSwitch := f.edgeSwitch
  links := hostLinks f.topop
  group := f.getPortGroup
  start := fun c => { c with up := 0, down := 0 }
  enter := enterGroup
  host := f.routeHost

/-- The passes of `_calculate_balanced_lft`: one switch, whose counters go on. -/
def balanced (switchp : Node) : HostRouting DestCount :=
  { f.systematic with sources := [switchp], start := id }

/-! ## Routes to switches -/

/-- The entries for the LIDs of an end port that `setup_xft` filled in. -/
def fillEntries (switchp : Node) (portp : ValidPort) (t : LftTables) (r : XftResult) : LftTables :=
  (portLids portp.port).zipIdx.foldl
    (fun t l => t.attach switchp l.1 (r.portnos.getD l.2 0xff)) { t with load := r.load }

/-- `setup_xft` for an end port and the entries of its LIDs; `none` where it does not end. -/
def setupEntries (switchp nodep : Node) (t : LftTables) (portp : ValidPort) : Option LftTables :=
  (smRoutingFuncSetupXft f.qsort f.topop f.path f.spineFirstRouting t.load switchp nodep portp).map
    (fillEntries switchp portp t)

def switchToSwitch (t : LftTables) (switchp : Node) : Option LftTables :=
  f.topop.switches.foldlM (fun t nodep =>
    ((liveEndPorts nodep).filterMap Port.toValid).foldlM (f.setupEntries switchp nodep) t) t

/-- The loop body of `sm_calculate_lft`, which is left at the first failure. -/
def calculateEntries (switchp nodep : Node) (s : LftTables × Status) (portp : ValidPort) :
    Option (LftTables × Status) :=
  match s.2 with
  | .bad => some s
  | .ok =>
    (smRoutingFuncSetupXft f.qsort f.topop f.path f.spineFirstRouting s.1.load switchp nodep
      portp).map fun r =>
        if r.status = .ok then (fillEntries switchp portp s.1 r, .ok)
        else ({ s.1 with load := r.load }, .bad)

def smCalculateLft (t : LftTables) (switchp : Node) : Option LftTables :=
  (f.topop.nodes.foldlM (fun s nodep =>
    ((liveEndPorts nodep).filterMap Port.toValid).foldlM (f.calculateEntries switchp nodep) s)
      (t.initLft switchp, Status.ok)).map Prod.fst

/-! ## The tables -/

/-- The tables that `_calculate_balanced_lfts_systematic` has for hosts. -/
def systematicHosts (t : LftTables) : LftTables :=
  (f.systematic.passes f.routeLast
    ((f.topop.switches.filter f.isSwitchQueued).foldl LftTables.initLft t, {})).1

/-- `_calculate_balanced_lfts_systematic`; a switch in no tier need not be balanced. -/
def calculateBalancedLftsSystematic (t : LftTables) : Option LftTables :=
  f.topop.switches.foldlM (fun t switchp =>
    if f.isSwitchQueued switchp then f.switchToSwitch t switchp else f.smCalculateLft t switchp)
    (f.systematicHosts t)

/-- The table that `_calculate_balanced_lft` has for hosts. -/
def balancedHosts (t : LftTables) (switchp : Node) : LftTables :=
  ((f.balanced switchp).passes f.routeLast (t.initLft switchp, {})).1

def calculateBalancedLft (t : LftTables) (switchp : Node) : Option LftTables :=
  if f.isSwitchQueued switchp then f.switchToSwitch (f.balancedHosts t switchp) switchp
  else f.smCalculateLft t switchp

end FatTree

/-!
## Changed hosts in a fat tree

Where only hosts have come or gone, the tables of the old topology are copied and the entries of
these hosts are changed.  `deltaLidBlocks` collects the blocks of LIDs that are sent again.
-/

def lftableListCount : Nat := 64

/-- A switch of the old topology that has a table, with the counters of its valid ports. -/
structure OldSwitch where
  lft : Lft
  linearFdbTop : Nat
  lidsRouted : Nat → Option Nat
  numLidsRouted : Nat

structure LidmapEntry where
  oldNodep : Option Node := none
  newNodep : Option Node := none
  newPortp : Option Port := none

/-- The tables, and the blocks that `curBlock` has gone through. -/
structure DeltaState where
  tables : LftTables
  curBlock : Option Nat := none
  deltaLidBlocks : Finset Nat := ∅

/-- What the update of a fat tree reads besides; what is known of a switch is by node index. -/
structure FatTreeDeltas extends FatTree where
  old : Nat → Option OldSwitch
  linearFdbTop : Nat → Nat
  lidmap : Nat → LidmapEntry
  maxLid : Nat
  newEndnodesInUse : Nat → Bool

def LftTables.copyLft (t : LftTables) (switchp : Node) (linearFdbTop : Nat) (oldnodep : OldSwitch) :
    LftTables :=
  let t := t.initLft switchp
  { t with
    lft := Function.update t.lft switchp.index fun lid =>
      if lid ≤ min linearFdbTop oldnodep.linearFdbTop then oldnodep.lft lid else none
    load :=
      { t.load with
        lidsRouted := fun n p =>
          if n = switchp.index ∧ ((allPorts switchp).filter isLive).any (fun q => q.index = p) then
            (oldnodep.lidsRouted p).getD (t.load.lidsRouted n p)
          else t.load.lidsRouted n p
        numLidsRouted := Function.update t.load.numLidsRouted switchp.index
          oldnodep.numLidsRouted } }

namespace DeltaState

def setCurBlock (s : DeltaState) (lid : Nat) : DeltaState :=
  if s.curBlock = some (lid / lftableListCount) then s
  else
    { s with
      curBlock := some (lid / lftableListCount)
      deltaLidBlocks := insert (lid / lftableListCount) s.deltaLidBlocks }

def removeLid (lid : Nat) (s : DeltaState) (switchp : Node) : DeltaState :=
  setCurBlock { s with tables := s.tables.attach switchp lid 0xff } lid

end DeltaState

namespace FatTreeDeltas

variable (d : FatTreeDeltas)

def copyBalancedLft (t : LftTables) (switchp : Node) : Option LftTables :=
  match d.old switchp.index with
  | none => d.calculateBalancedLft t switchp
  | some oldnodep => some (t.copyLft switchp (d.linearFdbTop switchp.index) oldnodep)

def copyBalancedLfts (t : LftTables) : Option LftTables :=
  d.topop.switches.foldlM d.copyBalancedLft t

def addEndPort (s : DeltaState) (lid : Nat) (nodep : Node) (portp : ValidPort) :
    Option DeltaState :=
  let s := s.setCurBlock lid
  (d.topop.switches.foldlM (fun t switchp => d.setupEntries switchp nodep t portp) s.tables).map
    fun t => { s with tables := t }

def deltaLid (s : DeltaState) (lid : Nat) : Option DeltaState :=
  match (d.lidmap lid).newNodep with
  | none =>
    if (d.lidmap lid).oldNodep.any fun n => n.nodeType = .ca then
      some (d.topop.switches.foldl (DeltaState.removeLid lid) s)
    else some s
  | some nodep =>
    match (d.lidmap lid).newPortp.bind Port.toValid with
    | none => some s
    | some portp =>
      -- only the base LID
      if portp.port.state.isUp ∧ lid = portp.data.lid ∧ d.newEndnodesInUse nodep.index then
        d.addEndPort s lid nodep portp
      else some s

def deltaLids (t : LftTables) : Option DeltaState :=
  (List.range (d.maxLid + 1)).foldlM d.deltaLid { tables := t }

def calculateBalancedLftDeltas (t : LftTables) : Option DeltaState :=
  (d.copyBalancedLfts t).bind d.deltaLids

end FatTreeDeltas

/-! ## Trunks -/

/-- `trunkCnt`, `trunkGrpCnt` and `trunkGrpNode`. -/
structure TrunkGroups where
  trunkCnt : Nat
  trunkGrpCnt : Nat → BitVec 8
  trunkGrpNode : Nat → BitVec 16

/-- `_incr_trunk_count`, for an uplink to the node. -/
def incrTrunkCount (g : TrunkGroups) (nodeno : BitVec 32) : TrunkGroups :=
  match (List.range g.trunkCnt).find? fun i => (g.trunkGrpNode i).setWidth 32 = nodeno with
  | some i => { g with trunkGrpCnt := Function.update g.trunkGrpCnt i (g.trunkGrpCnt i + 1) }
  | none =>
    { trunkCnt := g.trunkCnt + 1
      trunkGrpCnt := Function.update g.trunkGrpCnt g.trunkCnt 1
      trunkGrpNode := Function.update g.trunkGrpNode g.trunkCnt (nodeno.setWidth 16) }

/-- The turn of the loop of `_set_trunk_count`, on `uplinkTrunkCnt` and `min`. -/
def trunkTurn (g : TrunkGroups) (s : BitVec 8 × Int) (i : Nat) : BitVec 8 × Int :=
  let uplinkTrunkCnt := if g.trunkGrpCnt i > s.1 then g.trunkGrpCnt i else s.1
  let min := if s.2 < (g.trunkGrpCnt i).toNat then ((g.trunkGrpCnt i).toNat : Int) else s.2
  (uplinkTrunkCnt, min)

/-- `_set_trunk_count`, with the value of `uplinkTrunkCnt`. -/
def setTrunkCount (g : TrunkGroups) : BitVec 8 :=
  let s := (List.range' 1 (g.trunkCnt - 1)).foldl (trunkTurn g)
    (g.trunkGrpCnt 0, ((g.trunkGrpCnt 0).toNat : Int))
  if ((s.1.toNat : Int) - s.2).natAbs > 1 then 1 else s.1

end OpaFm.Routing
