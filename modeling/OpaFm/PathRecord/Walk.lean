import OpaFm.Fabric.Topology
import OpaFm.Multicast.Group
import OpaFm.Partition.PKey
import OpaFm.PathRecord.LidIterator
import Mathlib.Data.Nat.Pairing

/-!
# The hop walk of a path query

`sa_PathRecord_Set` finds the MTU and the rate of a path by following the forwarding tables from
the first switch.  It looks up one LID at every switch, that of the destination or, for a
destination that is no switch, that of port 0 of the switch before it.
-/

namespace OpaFm.PathRecord

open OpaFm.Fabric OpaFm.Multicast OpaFm.Partition

/-! ## The swept topology -/

/-- What the SA reads of a switch besides its ports.  The table is missing when another SM owns
the switch. -/
structure SwitchTables where
  lft : Option (Nat → Nat)
  linearFDBTop : Nat

/-- `old_topology`, with what path queries read of its ports; the last three tables are indexed by
node and port. -/
structure PathFabric where
  topology : Topology
  tables : Nat → SwitchTables
  pPKey : Nat → Nat → PKeyTable
  gid : Nat → Nat → IbGid
  gidPrefix : Nat → Nat → Nat
  index_inj : ∀ n ∈ topology.nodes, ∀ m ∈ topology.nodes, n.index = m.index → n = m
  port_index : ∀ n ∈ topology.nodes, ∀ i, (n.port i).index = i
  lids : ∀ n ∈ topology.nodes, ∀ p ∈ endPorts n, ∀ d, p.portData = some d →
    d.lmc ≤ 7 ∧ 2 ^ d.lmc ∣ d.lid ∧ d.lid + 2 ^ d.lmc ≤ 0xC000

/-- An end port that `sm_valid_port` accepts. -/
structure PathEnd (f : PathFabric) where
  nodep : Node
  node_mem : nodep ∈ f.topology.nodes
  port : Port
  port_mem : port ∈ endPorts nodep
  portData : PortData
  valid : port.portData = some portData

variable {f : PathFabric}

namespace PathEnd

def addr (e : PathEnd f) : Nat := Nat.pair e.nodep.index e.port.index

def endPort (e : PathEnd f) : EndPort :=
  have h := f.lids e.nodep e.node_mem e.port e.port_mem e.portData e.valid
  { lid := e.portData.lid
    lmc := e.portData.lmc
    lmc_le := h.1
    aligned := h.2.1
    unicast := h.2.2 }

end PathEnd

def isDirectConnected (src dst : PathEnd f) : Bool :=
  src.port.nodeno = some dst.nodep.index ∧ src.port.portno = some dst.port.index ∧
    dst.port.nodeno = some src.nodep.index ∧ dst.port.portno = some src.port.index

/-! ## Hops -/

def ibStaticRate2_5G : Nat := 2

/-- `if (linkrate_gt(rate,rated)) rate=rated`. -/
def slowerRate (rate rated : Nat) : Nat := if linkrateGt rate rated then rated else rate

def egressPort (f : PathFabric) (n : Node) (lid : Nat) : Option ValidPort :=
  (f.tables n.index).lft.bind fun lft =>
    if (f.tables n.index).linearFDBTop < lid then none
    else if lft lid = 255 then none
    else
      ((smGetPort n (lft lid)).bind Port.toValid).filter fun p =>
        PortState.active.code ≤ p.port.state.code

/-- Where the walk starts and ends, with the MTU and the rate that the end ports leave. -/
structure WalkStart where
  nextNodep : Node
  lastNodep : Node
  lastPortp : Option Port
  mtu : Nat
  rate : Nat

def walkSource (src : PathEnd f) : Option (Node × Nat × Nat) :=
  if src.nodep.nodeType ≠ .switch then
    (smFindNode f.topology src.port.nodeno).map fun next =>
      (next, src.portData.maxVlMtu, src.portData.rate)
  else if src.nodep.enhancedPort0 then
    some (src.nodep, src.portData.maxVlMtu, src.portData.rate)
  else some (src.nodep, ibMtu2048, ibStaticRate2_5G)

/-- The last switch and the port whose LID leads to it.  The values for a switch without enhanced
port 0 take the place of what the source had. -/
def walkStart (src dst : PathEnd f) : Option WalkStart :=
  (walkSource src).bind fun (next, mtu, rate) =>
    if dst.nodep.nodeType ≠ .switch then
      (smFindNode f.topology dst.port.nodeno).map fun last =>
        ⟨next, last, smGetPort last 0, min mtu dst.portData.maxVlMtu,
          slowerRate rate dst.portData.rate⟩
    else if dst.nodep.enhancedPort0 then
      some ⟨next, dst.nodep, some dst.port, min mtu dst.portData.maxVlMtu,
        slowerRate rate dst.portData.rate⟩
    else some ⟨next, dst.nodep, some dst.port, ibMtu2048, ibStaticRate2_5G⟩

/-- `last_portp->portData->lid`, where `sm_valid_port` accepts `last_portp`. -/
def WalkStart.lastLid (w : WalkStart) : Option Nat :=
  w.lastPortp.bind fun p => p.portData.map PortData.lid

def WalkStart.egress (f : PathFabric) (w : WalkStart) (n : Node) : Option ValidPort :=
  w.lastLid.bind (egressPort f n)

/-- The variables of the loop. -/
structure HopState where
  nextNodep : Option Node
  mtu : Nat
  rate : Nat
  hopCount : Nat

/-- The loop from hop to hop, `none` when the fuel runs out.  It ends with `VSTATUS_BAD`, here
`none` inside, or with the values it has collected; next_nodep may be no node then. -/
def hopWalk (f : PathFabric) (w : WalkStart) : Nat → HopState → Option (Option HopState)
  | 0, _ => none
  | fuel + 1, s =>
    match s.nextNodep with
    | none => some (some s)
    | some n =>
      if n.index = w.lastNodep.index then some (some s)
      else
        match w.egress f n with
        | none => some none
        | some p =>
          let s :=
            { s with
              nextNodep := smFindNode f.topology p.port.nodeno
              mtu := min s.mtu p.data.maxVlMtu
              hopCount := s.hopCount + 1 }
          if s.mtu < ibMtu2048 then some (some s)
          else hopWalk f w fuel { s with rate := slowerRate s.rate p.data.rate }

def WalkStart.hopState (w : WalkStart) : HopState := ⟨some w.nextNodep, w.mtu, w.rate, 1⟩

/-! ## The values of a path -/

structure PathParams where
  mtu : Nat
  rate : Nat
  hopCount : Nat
  deriving DecidableEq, Repr

def HopState.params (s : HopState) : PathParams := ⟨s.mtu, s.rate, s.hopCount⟩

def pathWalk (fuel : Nat) (src dst : PathEnd f) : Option (Option PathParams) :=
  if src.addr = dst.addr then some (some ⟨src.portData.maxVlMtu, src.portData.rate, 0⟩)
  else if isDirectConnected src dst then
    some (some ⟨min src.portData.maxVlMtu dst.portData.maxVlMtu,
      slowerRate src.portData.rate dst.portData.rate, 1⟩)
  else
    match walkStart src dst with
    | none => some none
    | some w => (hopWalk f w fuel w.hopState).map fun r => r.map HopState.params

/-- The values with which the records are filled, `none` inside for `VSTATUS_BAD`. -/
def pathParams (fuel : Nat) (src dst : PathEnd f) : Option (Option PathParams) :=
  (pathWalk fuel src dst).map fun r => r.filter fun p => ibMtu2048 ≤ p.mtu

end OpaFm.PathRecord
