import OpaFm.Routing.HostPasses
import OpaFm.Lib.RowMajor
import Mathlib.Algebra.Order.Ring.Int

/-!
# Forwarding tables in dimension order

The port groups of `_get_port_group`, the ports for one destination of `_setup_xft`, and the
table of a switch that `_calculate_lft` computes.
-/

namespace OpaFm.Dor

open OpaFm.Fabric OpaFm.Routing

def smDorMaxDimensions : Nat := 6

/-- The routing data of a switch: its coordinates and neighbours. -/
structure DorNode where
  coords : Nat → Int
  multipleBrokenDims : Bool
  left : Nat → Option Node
  right : Nat → Option Node

/-- What routing in dimension order reads, with the bit maps of the closure by switch index, the
pairs of ports of the configuration by dimension, and the flags of nodes and ports by index. -/
structure DorState where
  topop : Topology
  qsort : Qsort SwitchportToNextGuid
  numDimensions : Nat
  portPair : List (List (Nat × Nat))
  routingData : Node → DorNode
  dorLeft : Nat → Nat → Bool
  dorRight : Nat → Nat → Bool
  cost : Nat → Nat → Nat
  isIsl : Node → Port → Bool
  skipBalance : Node → Bool

namespace DorState

variable (s : DorState)

/-! ## Port groups -/

def dorClosure (i j : Nat) : Bool := i = j || s.dorLeft i j || s.dorRight i j

def routingDimension (switchp toSwitchp : Node) : Nat :=
  ((List.range s.numDimensions).find? fun i =>
    (s.routingData switchp).coords i != (s.routingData toSwitchp).coords i).getD 0

def addPorts (switchp neighborNode : Node) : List SwitchportToNextGuid :=
  ((physicalPorts switchp).filter fun p => isLive p && p.nodeno == some neighborNode.index).map
    fun p => { guid := 0, portp := p, nextSwp := neighborNode }

/-- The ports of `_get_dor_port_group` before they are sorted; `none` is the access through a
null pointer. -/
def dorPorts (switchp toSwitchp : Node) : Option (List SwitchportToNextGuid) :=
  let routingDim := s.routingDimension switchp toSwitchp
  if smDorMaxDimensions ≤ routingDim then some []
  else do
    let left ←
      if s.dorLeft switchp.swIdx toSwitchp.swIdx then
        ((s.routingData switchp).left routingDim).map (addPorts switchp)
      else some []
    let right ←
      if s.dorRight switchp.swIdx toSwitchp.swIdx then
        ((s.routingData switchp).right routingDim).map (addPorts switchp)
      else some []
    some (left ++ right)

/-- `get_configured_dimension`, -1 where no dimension has the pair. -/
def getConfiguredDimension (p1 : Nat) (p2 : Option Nat) : Int :=
  match s.portPair.findIdx? fun pairs =>
    pairs.any fun pair => p1 == pair.1 && p2 == some pair.2 || p1 == pair.2 && p2 == some pair.1 with
  | some i => i
  | none => -1

/-- What the loop of `_get_alternate_path_port_group` has found so far. -/
structure AlternateState where
  brokenPath : Bool := false
  curDim : Int := -1
  orderedPorts : List SwitchportToNextGuid := []

def addAlternate (entry : SwitchportToNextGuid) (a : AlternateState) : AlternateState :=
  let nextDim := s.getConfiguredDimension entry.portp.index entry.portp.portno
  if a.curDim < 0 then { a with curDim := nextDim, orderedPorts := a.orderedPorts ++ [entry] }
  else if nextDim < a.curDim then { a with curDim := nextDim, orderedPorts := [entry] }
  else if a.curDim < nextDim then a
  else { a with orderedPorts := a.orderedPorts ++ [entry] }

/-- The loop body of `_get_alternate_path_port_group`. -/
def alternatePort (src dst : Node) (a : AlternateState) (portp : Port) : AlternateState :=
  if !isLive portp then a
  else
    match (smFindNode s.topop portp.nodeno).filter fun n => n.nodeType = .switch with
    | none => a
    | some next =>
      if src.swIdx = next.swIdx then a
      else if s.cost src.swIdx next.swIdx + s.cost next.swIdx dst.swIdx =
          s.cost src.swIdx dst.swIdx then
        let entry : SwitchportToNextGuid := { guid := 0, portp := portp, nextSwp := next }
        if next.index = dst.index then s.addAlternate entry a
        else if (s.routingData next).multipleBrokenDims then
          if !a.brokenPath && !a.orderedPorts.isEmpty then a
          else s.addAlternate entry { a with brokenPath := true }
        else if a.brokenPath then s.addAlternate entry {}
        else s.addAlternate entry a
      else a

/-- The ports of `_get_alternate_path_port_group` before they are sorted. -/
def alternatePorts (src dst : Node) : List SwitchportToNextGuid :=
  ((physicalPorts src).foldl (s.alternatePort src dst) {}).orderedPorts

/-- The ports of `_get_port_group` before they are sorted. -/
def groupPorts (switchp toSwitchp : Node) : Option (List SwitchportToNextGuid) :=
  if s.dorClosure switchp.swIdx toSwitchp.swIdx then s.dorPorts switchp toSwitchp
  else some (s.alternatePorts switchp toSwitchp)

def getPortGroup (load : RouteLoad) (switchp toSwitchp : Node) : Option (List Nat) :=
  (s.groupPorts switchp toSwitchp).map fun ports =>
    (s.qsort.sort (compareLidsRouted load switchp) ports).map fun e => e.portp.index

/-! ## The ports for one destination -/

/-- An array of the caller, with the offsets that were written. -/
structure PortBuffer where
  portnos : Nat → Nat
  wrote : List Nat

def PortBuffer.put (buf : PortBuffer) (i v : Nat) : PortBuffer :=
  { portnos := Function.update buf.portnos i v, wrote := buf.wrote ++ [i] }

def PortBuffer.fill (buf : PortBuffer) (vs : List Nat) : PortBuffer :=
  vs.zipIdx.foldl (fun buf v => buf.put v.2 v.1) buf

def getSwitch (nodep : Node) (portp : Port) : Option Node :=
  if nodep.nodeType = .switch then some nodep
  else (smFindNode s.topop portp.nodeno).filter fun n => n.nodeType = .switch

/-- `_get_outbound_port_dor`, which `_setup_xft` returns the result of; `none` is the access
through a null pointer. -/
def setupXft (load : RouteLoad) (switchp endNodep : Node) (endPortp : ValidPort)
    (buf : PortBuffer) : Option (Status × PortBuffer) :=
  let numLids := 2 ^ endPortp.data.lmc % 256
  let buf := buf.fill (List.replicate numLids 0xff)
  match s.getSwitch endNodep endPortp.port with
  | none => some (.bad, buf)
  | some endSwitchp =>
    if switchp.swIdx = endSwitchp.swIdx then
      some (.ok, buf.fill (List.replicate numLids (endPortp.port.portno.getD 0xff)))
    else (s.getPortGroup load switchp endSwitchp).map fun group => (.ok, buf.fill group)

/-! ## The table of a switch -/

structure LftState where
  lft : Lft
  load : RouteLoad
  i : Nat := 0
  routeLast : Nat → Nat := fun _ => 0
  routeLastCount : Nat := 0

def routeLid (switchp : Node) (portGroup : List Nat) (currentLid : Nat) (st : LftState) : LftState :=
  let port := portGroup.getD (st.i % portGroup.length) 0xff
  { st with
    lft := Function.update st.lft currentLid (some port)
    load := incrLidsRouted s.topop st.load switchp port
    i := st.i + 1 }

def putAside (currentLid : Nat) (st : LftState) : LftState :=
  { st with
    routeLast := Function.update st.routeLast st.routeLastCount (currentLid % 256)
    routeLastCount := (st.routeLastCount + 1) % 256 }

/-- The loop body for a LID of a host at `toSwitchp`. -/
def hostLid (switchp : Node) (portGroup : List Nat) (toSwitchPortp : Port) (nodep : Node)
    (st : LftState) (currentLid : Nat) : LftState :=
  if portGroup.length = 0 then
    { st with lft := Function.update st.lft currentLid (some toSwitchPortp.index) }
  else if s.skipBalance nodep && decide (st.routeLastCount < 256) then putAside currentLid st
  else s.routeLid switchp portGroup currentLid st

def hostsAt (toSwitchp : Node) : List (Port × Node) :=
  (hostLinks s.topop toSwitchp).filter fun l => !s.isIsl toSwitchp l.1

/-- The LIDs at a switch in the order in which they are gone through, each with the port of the
switch and the host. -/
def lidsAt (toSwitchp : Node) : List (Port × Node × Nat) :=
  (s.hostsAt toSwitchp).flatMap fun l => (hostLids l.2).map fun lid => (l.1, l.2, lid)

def routeHosts (switchp : Node) (portGroup : List Nat) (toSwitchp : Node) (st : LftState) :
    LftState :=
  (s.lidsAt toSwitchp).foldl (fun st l => s.hostLid switchp portGroup l.1 l.2.1 st l.2.2)
    { st with routeLastCount := 0 }

def routeLastLids (switchp : Node) (portGroup : List Nat) (st : LftState) : LftState :=
  (List.range st.routeLastCount).foldl
    (fun st j => s.routeLid switchp portGroup (st.routeLast j) st) st

def routeSwitch (portGroup : List Nat) (toSwitchp : Node) (st : LftState) : LftState :=
  (liveEndPorts toSwitchp).foldl (fun st p =>
    (portLids p).foldl (fun st lid =>
      { st with
        lft := Function.update st.lft lid
          (some (if portGroup.length = 0 then p.index else portGroup.getD 0 0xff)) }) st) st

def routeTo (switchp : Node) (st : LftState) (toSwitchp : Node) : Option LftState := do
  let st := { st with i := 0 }
  if switchp.index = toSwitchp.index then
    some (routeSwitch [] toSwitchp
      (s.routeLastLids switchp [] (s.routeHosts switchp [] toSwitchp st)))
  else
    let portGroup ← s.getPortGroup st.load switchp toSwitchp
    if portGroup.length = 0 then some st
    else
      some (routeSwitch portGroup toSwitchp
        (s.routeLastLids switchp portGroup (s.routeHosts switchp portGroup toSwitchp st)))

/-- `_calculate_lft`; `none` is the access through a null pointer. -/
def calculateLft (load : RouteLoad) (switchp : Node) : Option LftState :=
  s.topop.switches.foldlM (s.routeTo switchp) { lft := fun _ => none, load := load }

/-! ## What tables are for -/

/-- The buffer holds a port of the group for each of the `2 ^ lmc` LIDs, and nothing beyond was
written. -/
def XftAgrees (buf : PortBuffer) (group : List Nat) (lmc : Nat) : Prop :=
  (∀ i < 2 ^ lmc, i ∈ buf.wrote ∧ buf.portnos i ≠ 0xff ∧ buf.portnos i ∈ group) ∧
    ∀ i ∈ buf.wrote, i < 2 ^ lmc

def Reachable (switchp toSwitchp : Node) : Prop :=
  switchp.index = toSwitchp.index ∨ s.dorClosure switchp.swIdx toSwitchp.swIdx = true ∨
    ∃ e ports, s.groupPorts switchp toSwitchp = some ports ∧ e ∈ ports

def LeadsTo (switchp toSwitchp : Node) (own port : Nat) : Prop :=
  if switchp.index = toSwitchp.index then port = own
  else ∃ e ports, s.groupPorts switchp toSwitchp = some ports ∧ e ∈ ports ∧ port = e.portp.index

def LidAt (toSwitchp : Node) (own lid : Nat) : Prop :=
  (∃ nodep ∈ s.topop.nodes, nodep.nodeType = .ca ∧ ∃ portp ∈ liveEndPorts nodep,
    portp.nodeno = some toSwitchp.index ∧ portp.portno = some own ∧ lid ∈ portLids portp) ∨
  ∃ portp ∈ liveEndPorts toSwitchp, portp.index = own ∧ lid ∈ portLids portp

/-- Every LID at a switch that can be reached has a port on the way there, and no other LID has
an entry. -/
structure TableOk (switchp : Node) (lft : Lft) : Prop where
  routed : ∀ toSwitchp ∈ s.topop.switches, s.Reachable switchp toSwitchp →
    ∀ own lid, s.LidAt toSwitchp own lid →
      ∃ port, lft lid = some port ∧ s.LeadsTo switchp toSwitchp own port
  others : ∀ lid, lft lid ≠ none → ∃ toSwitchp ∈ s.topop.switches,
    s.Reachable switchp toSwitchp ∧ ∃ own, s.LidAt toSwitchp own lid

/-- A host that is found through a link of the switch has no other live port than the one at the
link. -/
def SingleAt (toSwitchp : Node) : Prop :=
  ∀ l ∈ s.hostsAt toSwitchp, (liveEndPorts l.2).length ≤ 1 ∧ ∀ portp ∈ liveEndPorts l.2,
    portp.nodeno = some toSwitchp.index ∧ portp.portno = some l.1.index

def SingleHomed (switchp : Node) : Prop :=
  ∀ toSwitchp ∈ s.topop.switches, s.Reachable switchp toSwitchp → s.SingleAt toSwitchp

def DeferredFit (switchp : Node) : Prop :=
  ∀ toSwitchp ∈ s.topop.switches, switchp.index ≠ toSwitchp.index →
    s.Reachable switchp toSwitchp → ∀ l ∈ s.lidsAt toSwitchp, s.skipBalance l.2.1 = true →
      l.2.2 < 256

end DorState

/-- A discovered fabric, where links to hosts are not marked as links between switches and a bit of
the closure leads to a neighbour with a live cable. -/
structure DorSubnet extends DorState where
  wired : Wired topop
  host_not_isl : ∀ switchp ∈ topop.switches, ∀ l ∈ hostLinks topop switchp,
    isIsl switchp l.1 = false
  cabled : ∀ x ∈ topop.switches, ∀ y ∈ topop.switches, x.index ≠ y.index →
    toDorState.dorClosure x.swIdx y.swIdx = true →
      ∃ e ports, toDorState.dorPorts x y = some ports ∧ e ∈ ports

/-!
## Indices of switches

Switches are found in a table by their coordinates, and pairs of switches have their bits in the
maps of the closure.
-/

open OpaFm.Lib

/-! ### Coordinates -/

/-- The lengths of the dimensions in `DorTopology_t`. -/
structure DorLengths where
  dimensionLength : List (BitVec 8)
  few : dimensionLength.length ≤ smDorMaxDimensions
  bounds : ∀ l ∈ dimensionLength, 0 < l.toNat ∧ l.toNat ≤ 127
  small : boxVolume (dimensionLength.map BitVec.toNat) < 0x80000000

def remapCoord (length coord : BitVec 8) : BitVec 32 :=
  BitVec.ofInt 32 (if coord.toInt ≥ 0 then coord.toInt else length.toNat + coord.toInt)

def lookupFrom : List (BitVec 8) → List (BitVec 8) → BitVec 32 → BitVec 32
  | length :: lengths, coord :: coords, s =>
    let s := s + remapCoord length coord
    lookupFrom lengths coords
      (match lengths with
      | [] => s
      | next :: _ => s * next.setWidth 32)
  | _, _, s => s

/-- `_lookup_index`, on the signed coordinates of a switch. -/
def lookupIndex (lengths coords : List (BitVec 8)) : BitVec 32 := lookupFrom lengths coords 0

/-- The product of the inner loop of `_coords_from_index`. -/
def laterLengths (lengths : List (BitVec 8)) : Int :=
  lengths.foldl (fun s length => s * length.toNat) 1

/-- The loop of `_coords_from_index` from dimension `i`. -/
def coordsFrom : Nat → List (BitVec 8) → Int → List (BitVec 8)
  | _, [], _ => []
  | i, _ :: lengths, index =>
    let s := laterLengths (lengths.take (smDorMaxDimensions - (i + 1)))
    BitVec.ofInt 8 (index.tdiv s) :: coordsFrom (i + 1) lengths (index.tmod s)

def coordsFromIndex (lengths : List (BitVec 8)) (index : Int) : List (BitVec 8) :=
  coordsFrom 0 lengths index

/-! ### Bits of pairs -/

/-- The bytes that `_calc_dor_closure` allocates for a map, and `_copy_dor_closure` copies. -/
def dorClosureSize (maxSws : BitVec 32) : BitVec 64 :=
  4 * maxSws.setWidth 64 * maxSws.setWidth 64 / 32 + 1

/-- `DorBitMapsIndex`, given as an `int` to the macros of the bits. -/
def dorBitMapsPlace (closureMaxSws x y : BitVec 32) : Int := (x * closureMaxSws + y).toInt

def dorBitMapsWord (closureMaxSws x y : BitVec 32) : Int := dorBitMapsPlace closureMaxSws x y / 32

end OpaFm.Dor
