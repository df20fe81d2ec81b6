import Mathlib.Data.Finset.Basic
import Mathlib.Data.Nat.Basic

/-!
# The fabric as a sweep leaves it

Nodes, ports and links of the discovered fabric, with the look-ups that the
routing, multicast and partition code share.  A field stands here when some
modelled function reads it; the counters that routing itself writes are kept
apart, in `Routing.RouteLoad`, so that a topology is a constant of every run.
-/

namespace OpaFm.Fabric

/-- `NI_TYPE_CA`, `NI_TYPE_SWITCH`, `NI_TYPE_ROUTER`. -/
inductive NodeType where
  | ca
  | switch
  | router
  deriving DecidableEq, Repr

inductive PortState where
  | nop
  | down
  | init
  | armed
  | active
  deriving DecidableEq, Repr

def PortState.code : PortState → Nat
  | .nop => 0
  | .down => 1
  | .init => 2
  | .armed => 3
  | .active => 4

def PortState.isUp (s : PortState) : Bool := PortState.down.code < s.code

inductive LinkSpeed where
  | s12_5G
  | s25G
  | other
  deriving DecidableEq, Repr

inductive LinkWidth where
  | x1
  | x2
  | x3
  | x4
  | other
  deriving DecidableEq, Repr

/-! ## Rates and MTUs

Both travel as small codes in records and requests, so they stay numbers. -/

def ibStaticRateMin : Nat := 2
def ibStaticRateMax : Nat := 18
def ibStaticRate1GB : Nat := 1
def ibStaticRate5G : Nat := 5
def ibStaticRate100G : Nat := 16

def ibMtu256 : Nat := 1
def ibMtu2048 : Nat := 4
def ibMtu4096 : Nat := 5
def stlMtu8192 : Nat := 6
def stlMtuMax : Nat := 7

/-- `linkrate_to_ordinal`: ten times the rate of a static rate code. -/
def linkrateToOrdinal : Nat → Nat
  | 2 => 25
  | 5 => 50
  | 3 => 100
  | 11 => 125
  | 6 => 200
  | 15 => 250
  | 4 => 300
  | 7 => 375
  | 12 => 500
  | 8 => 600
  | 9 => 750
  | 16 => 1040
  | 13 => 1120
  | 10 => 1200
  | 14 => 1680
  | 17 => 2080
  | 18 => 3120
  | _ => 25

def linkrateLt (r₁ r₂ : Nat) : Bool := linkrateToOrdinal r₁ < linkrateToOrdinal r₂
def linkrateGt (r₁ r₂ : Nat) : Bool := linkrateToOrdinal r₂ < linkrateToOrdinal r₁

def linkWidthToRate : LinkSpeed → LinkWidth → Nat
  | .s12_5G, .x1 => 11
  | .s12_5G, .x2 => 15
  | .s12_5G, .x3 => 7
  | .s12_5G, .x4 => 12
  | .s25G, .x1 => 15
  | .s25G, .x2 => 12
  | .s25G, .x3 => 9
  | .s25G, .x4 => 16
  | _, _ => ibStaticRate1GB

def getNextMTU (mtu : Nat) : Nat := if mtu = ibMtu4096 then stlMtu8192 else mtu + 1

/-- `getPrevMTU`, whose `int` result the callers store in a `uint8_t`. -/
def getPrevMTU (mtu : Nat) : Nat :=
  if mtu = stlMtu8192 then ibMtu4096 else (mtu + 255) % 256

def stlLinkWidthToInt : LinkWidth → Nat
  | .x2 => 2
  | .x3 => 3
  | .x4 => 4
  | _ => 1

/-- `Decode_SpeedFactor`, the value `sm_GetLsf` stores in `lsf`. -/
def smGetLsf : LinkSpeed → Nat
  | .s12_5G => 24
  | _ => 50

/-! ## P_Keys -/

/-- `PKEY_VALUE`, the key without its membership bit. -/
def pKeyValue (pKey : Nat) : Nat := pKey % 0x8000

def pKeyIsFull (pKey : Nat) : Bool := pKey / 0x8000 % 2 = 1

/-! ## Ports and nodes -/

structure PortData where
  guid : Nat := 0
  lid : Nat := 0
  lmc : Nat := 0
  maxVlMtu : Nat := 0
  linkSpeed : LinkSpeed := .s25G
  linkWidth : LinkWidth := .x4
  uplink : Bool := false
  dgMember : Finset Nat := ∅
  vfMember : Finset Nat := ∅
  fullPKeyMember : Finset Nat := ∅
  mgmtAllowed : Bool := false
  neighborNodeGuid : Nat := 0
  isDeviceMgtSupported : Bool := false

/-- `sm_GetSpeed`; `sm_setup_node` stores the same value in `portSpeed`. -/
def smGetSpeed (d : PortData) : Nat := smGetLsf d.linkSpeed * stlLinkWidthToInt d.linkWidth

def speedWidthToCost (x : Nat) : Nat := if x ≠ 0 then 2400 / x else 2400

def smGetCost (d : PortData) : Nat := speedWidthToCost (smGetSpeed d)

def PortData.rate (d : PortData) : Nat := linkWidthToRate d.linkSpeed d.linkWidth

/-- `Port_t`.  `nodeno` and `portno` name the other end of the link; a port
without a neighbour holds `(uint32_t)-1` there, read here as `none`. -/
structure Port where
  index : Nat := 0
  state : PortState := .nop
  nodeno : Option Nat := none
  portno : Option Nat := none
  portData : Option PortData := none

structure Node where
  index : Nat
  swIdx : Nat := 0
  nodeType : NodeType := .switch
  numPorts : Nat := 0
  nodeGuid : Nat := 1
  systemImageGuid : Nat := 1
  nodeDesc : String := ""
  enhancedPort0 : Bool := false
  internalLinks : Bool := false
  partitionCap : Nat := 32
  partitionEnforcementCap : Nat := 32
  port : Nat → Port := fun i => { index := i }

structure Topology where
  nodes : List Node
  maxSws : Nat

def Topology.switches (topop : Topology) : List Node :=
  topop.nodes.filter fun n => n.nodeType = .switch

def smValidPort (p : Port) : Bool := p.portData.isSome

def smGetPort (n : Node) (portIndex : Nat) : Option Port :=
  if portIndex ≤ n.numPorts then some (n.port portIndex) else none

/-- `sm_find_node`: the node with this index, through `nodeArray` or
`nodeIdMap`. -/
def smFindNode (topop : Topology) (nodeno : Option Nat) : Option Node :=
  nodeno.bind fun k => topop.nodes.find? fun n => n.index = k

def smFindPort (topop : Topology) (nodeno portno : Option Nat) : Option Port :=
  (smFindNode topop nodeno).bind fun n => portno.bind fun p => smGetPort n p

def physicalPorts (n : Node) : List Port := (List.range' 1 n.numPorts).map n.port

/-- `for_all_ports`, which for a switch starts at port 0. -/
def allPorts (n : Node) : List Port :=
  if n.nodeType = .switch then (List.range' 0 (n.numPorts + 1)).map n.port
  else physicalPorts n

/-- `for_all_end_ports`: port 0 of a switch, every port of anything else. -/
def endPorts (n : Node) : List Port :=
  if n.nodeType = .switch then [n.port 0] else physicalPorts n

structure ValidPort where
  port : Port
  data : PortData
  valid : port.portData = some data

def Port.toValid (p : Port) : Option ValidPort :=
  match h : p.portData with
  | none => none
  | some d => some ⟨p, d, h⟩

theorem mem_physicalPorts {n : Node} {p : Port} :
    p ∈ physicalPorts n ↔ ∃ i, 1 ≤ i ∧ i ≤ n.numPorts ∧ n.port i = p := by
  simp only [physicalPorts, List.mem_map, List.mem_range'_1]
  constructor
  · rintro ⟨i, ⟨h1, h2⟩, rfl⟩
    exact ⟨i, h1, by omega, rfl⟩
  · rintro ⟨i, h1, h2, rfl⟩
    exact ⟨i, ⟨h1, by omega⟩, rfl⟩

theorem smGetCost_pos (d : PortData) : 0 < smGetCost d := by
  unfold smGetCost speedWidthToCost smGetSpeed
  cases d.linkSpeed <;> cases d.linkWidth <;> decide

theorem smGetCost_le (d : PortData) : smGetCost d ≤ 100 := by
  unfold smGetCost speedWidthToCost smGetSpeed
  cases d.linkSpeed <;> cases d.linkWidth <;> decide

end OpaFm.Fabric
