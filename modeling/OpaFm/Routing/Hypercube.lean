import OpaFm.Routing.HostPasses
import OpaFm.Partition.DeviceGroup

/-!
# Hypercube routing

The order of ports that `_setup_routing_ctrl` makes from the configuration, the marks of hosts to be
routed last, and the tables of `hypercube_calculate_all_lfts`.
-/

namespace OpaFm.Routing

open OpaFm.Fabric OpaFm.Partition

/-! ## Enhanced routing control -/

structure SmSPRoutingPort where
  pport : Nat
  vport : Nat
  cost : Nat
  deriving DecidableEq, Repr

/-- `SmSPRoutingCtrl_t`, with the ports and virtual ports that its entries name. -/
structure SmSPRoutingCtrl where
  switches : String
  pportMap : Nat → Bool
  vportMap : Nat → Bool
  ports : List SmSPRoutingPort

/-- An array of the pool with the offsets that were written; the pool clears what it gives. -/
structure PortOrder where
  portOrder : Nat → Nat := fun _ => 0
  wrote : List Nat := []

def PortOrder.put (o : PortOrder) (vport pport : Nat) : PortOrder :=
  { portOrder := Function.update o.portOrder vport pport, wrote := o.wrote ++ [vport] }

/-- What `_setup_routing_ctrl` sets: `routingData` and the costs of the ports. -/
structure RoutingCtrl where
  routingData : Option PortOrder
  routingCost : Nat → Nat

section

variable (numPorts : Nat)

def SmSPRoutingPort.inRange (e : SmSPRoutingPort) : Bool :=
  e.vport ≠ 0 && decide (e.vport ≤ numPorts) && (e.pport ≠ 0 && decide (e.pport ≤ numPorts))

def nodeEntries (ports : List SmSPRoutingPort) (o : PortOrder) : PortOrder :=
  ports.foldl (fun o e => if e.inRange numPorts then o.put e.vport e.pport else o) o

/-- The order with the two maps of ports that are taken. -/
structure OrderMaps where
  order : PortOrder
  pportMap : Nat → Bool
  vportMap : Nat → Bool

def defaultEntry (s : OrderMaps) (e : SmSPRoutingPort) : OrderMaps :=
  if s.pportMap e.pport || s.vportMap e.vport then s
  else if e.inRange numPorts then
    { order := s.order.put e.vport e.pport
      pportMap := Function.update s.pportMap e.pport true
      vportMap := Function.update s.vportMap e.vport true }
  else s

/-- The inner loop over the ports that are not taken, from `pport` on; the port that it goes on
from is returned. -/
def nextPort (pportMap : Nat → Bool) : Nat → Nat → Option Nat × Nat
  | 0, pport => (none, pport)
  | fuel + 1, pport =>
    if numPorts < pport then (none, pport)
    else if pportMap pport then nextPort pportMap fuel (pport + 1)
    else (some pport, pport + 1)

def fillGaps (s : OrderMaps) : PortOrder :=
  ((List.range' 1 numPorts).foldl (fun (st : PortOrder × Nat) vport =>
    if s.vportMap vport then st
    else
      match nextPort numPorts s.pportMap (numPorts + 1) st.2 with
      | (some pport, next) => (st.1.put vport pport, next)
      | (none, next) => (st.1, next)) (s.order, 1)).1

end

/-- The costs of the entries of a control, for ports with data; the default control leaves a port
that has a cost alone. -/
def entryCosts (nodep : Node) (isDefault : Bool) (ports : List SmSPRoutingPort)
    (routingCost : Nat → Nat) : Nat → Nat :=
  ports.foldl (fun cost e =>
    if e.cost ≠ 0 ∧ (smGetPort nodep e.pport).any smValidPort ∧ (isDefault → cost e.pport = 0) then
      Function.update cost e.pport e.cost
    else cost) routingCost

def defaultCost (ctrl : Option SmSPRoutingCtrl) : Nat :=
  ((ctrl.bind fun c => c.ports.find? fun e => e.pport = 0).map SmSPRoutingPort.cost).getD 0

def defaultCtrl (ctrls : List SmSPRoutingCtrl) : Option SmSPRoutingCtrl :=
  (ctrls.filter fun c => c.switches.length = 0).getLast?

def nodeCtrl (cfg : DGXmlConfig) (ctrls : List SmSPRoutingCtrl) (nodep : Node) :
    Option SmSPRoutingCtrl :=
  ctrls.find? fun c => c.switches.length ≠ 0 &&
    (smGetDgIdx cfg c.switches).any fun dgIdx =>
      (smGetPort nodep 0).any fun portp => portp.portData.any fun d => decide (dgIdx ∈ d.dgMember)

/-- `_setup_routing_ctrl` for a switch without routing data.  The pool gives no array of no
bytes. -/
def setupRoutingCtrl (cfg : DGXmlConfig) (ctrls : List SmSPRoutingCtrl) (nodep : Node)
    (routingCost : Nat → Nat) : RoutingCtrl :=
  let nodeData := nodeCtrl cfg ctrls nodep
  let defaultData := defaultCtrl ctrls
  match nodeData <|> defaultData with
  | none => ⟨none, routingCost⟩
  | some ctrl =>
    let cost := if defaultCost nodeData ≠ 0 then defaultCost nodeData else defaultCost defaultData
    let routingCost :=
      if cost ≠ 0 then fun p =>
        if (smGetPort nodep p).any smValidPort then cost else routingCost p
      else routingCost
    if nodep.numPorts = 0 then ⟨none, routingCost⟩
    else
      let order := nodeEntries nodep.numPorts ctrl.ports {}
      let routingCost := entryCosts nodep false ctrl.ports routingCost
      let start : OrderMaps := ⟨order, ctrl.pportMap, ctrl.vportMap⟩
      match nodeData, defaultData with
      | some _, some d =>
        ⟨some (fillGaps nodep.numPorts (d.ports.foldl (defaultEntry nodep.numPorts) start)),
          entryCosts nodep true d.ports routingCost⟩
      | _, _ => ⟨some (fillGaps nodep.numPorts start), routingCost⟩

/-! ## Choosing ports -/

/-- What hypercube routing reads besides the topology. -/
structure HypercubeState where
  topop : Topology
  cfg : DGXmlConfig
  routeLast : String
  qsort : Qsort SwitchportToNextGuid
  cost : Nat → Nat → Nat
  routingData : Node → Option PortOrder
  edgeSwitch : Node → Bool
  isIsl : Node → Port → Bool

/-- The ports of a switch in the order in which `hypercube_select_ports` goes through them. -/
def visitedPorts (nodep : Node) (routingData : Option PortOrder) : List Nat :=
  (List.range nodep.numPorts).map fun port =>
    match routingData with
    | some o => o.portOrder port
    | none => port + 1

namespace HypercubeState

variable (s : HypercubeState)

/-- The state of `hypercube_select_ports`, with the switch that the first port leads to. -/
structure HypercubeSelect where
  first : Option Node := none
  sel : SelectState := { bestSpeed := 0 }

/-- The loop body of `hypercube_select_ports`. -/
def selectPort (load : RouteLoad) (switchp : Node) (endIndex : Nat) (selectBest : Bool)
    (a : HypercubeSelect) (port : Nat) : HypercubeSelect :=
  match (smGetPort switchp port).bind Port.toValid with
  | none => a
  | some p =>
    if !p.port.state.isUp then a
    else
      match (smFindNode s.topop p.port.nodeno).filter fun n => n.nodeType = .switch with
      | none => a
      | some next =>
        if switchp.swIdx = next.swIdx then a
        else if s.cost switchp.swIdx next.swIdx + s.cost next.swIdx endIndex ≠
            s.cost switchp.swIdx endIndex then a
        else if a.first.any fun n => n.index ≠ next.index then a
        else
          { first := some (a.first.getD next)
            sel := considerPort selectBest
              { guid := next.nodeGuid, portp := p.port, nextSwp := next } (smGetSpeed p.data)
              (load.lidsRouted switchp.index p.port.index) (load.numLidsRouted next.index)
              a.sel }

def hypercubeSelectPorts (load : RouteLoad) (switchp : Node) (endIndex : Nat) (selectBest : Bool) :
    List SwitchportToNextGuid :=
  ((visitedPorts switchp (s.routingData switchp)).foldl
    (s.selectPort load switchp endIndex selectBest) {}).sel.orderedPorts

def hypercubeGetPortGroup (load : RouteLoad) (switchp nodep : Node) : List Nat :=
  if nodep.nodeType ≠ .switch then []
  else if nodep.swIdx = switchp.swIdx then []
  else
    (s.qsort.sort (compareLidsRouted load switchp)
      (s.hypercubeSelectPorts load switchp nodep.swIdx false)).map fun e => e.portp.index

def hypercubeSetupXft (load : RouteLoad) (switchp nodep : Node) (orig : ValidPort) : XftResult :=
  let numLids := 2 ^ orig.data.lmc % 256
  let inc := if nodep.nodeType = .switch then 0 else 1
  let failed : XftResult := ⟨.bad, List.replicate numLids 0xff, load⟩
  match destinationSwitch s.topop nodep orig.port with
  | none => failed
  | some j =>
    if j = switchp.swIdx then
      ⟨.ok, List.replicate numLids (orig.port.portno.getD 0xff), load⟩
    else if orig.data.lmc = 0 then
      match s.hypercubeSelectPorts load switchp j true with
      | [] => failed
      | e :: _ =>
        ⟨.ok, [e.portp.index],
          if e.portp.index ≠ 0xff ∧ nodep.nodeType ≠ .switch then load.route switchp e inc
          else load⟩
    else
      match s.hypercubeSelectPorts load switchp j false with
      | [] => failed
      | ports => spreadLids load switchp numLids inc
          (s.qsort.sort (compareLidsRouted load switchp) ports)

/-! ## The tables -/

def hypercubeHost (switchp : Node) (portGroup : List Nat) (l : Port × Node)
    (st : LftTables × Nat) : LftTables × Nat :=
  (hostLids l.2).foldl (fun (st : LftTables × Nat) currentLid =>
    if portGroup.length = 0 then (st.1.attach switchp currentLid l.1.index, st.2)
    else
      (st.1.assign s.topop switchp currentLid (portGroup.getD (st.2 % portGroup.length) 0xff),
        st.2 + 1)) st

def hostRouting : HostRouting Nat where
  topop := s.topop
  sources := s.topop.switches
  targets := s.topop.switches
  edgeSwitch := s.edgeSwitch
  links := fun toSwitchp => (hostLinks s.topop toSwitchp).filter fun l => !s.isIsl toSwitchp l.1
  group := s.hypercubeGetPortGroup
  start := fun _ => 0
  enter := fun _ _ i => i
  host := s.hypercubeHost

def switchEntries (switchp nodep : Node) (t : LftTables) (portp : ValidPort) : LftTables :=
  let r := s.hypercubeSetupXft t.load switchp nodep portp
  (portLids portp.port).zipIdx.foldl (fun t l => t.attach switchp l.1 (r.portnos.getD l.2 0xff))
    { t with load := r.load }

def switchRoutes (t : LftTables) : LftTables :=
  s.topop.switches.foldl (fun t switchp =>
    s.topop.switches.foldl (fun t nodep =>
      ((liveEndPorts nodep).filterMap Port.toValid).foldl (s.switchEntries switchp nodep) t) t) t

def hypercubeCalculateAllLfts (t : LftTables) : LftTables :=
  s.switchRoutes
    (s.hostRouting.passes s.routeLast (s.topop.switches.foldl LftTables.initLft t, 0)).1

/-! ## Marks -/

def inGroup (nodep : Node) (dgIdx : Nat) : Bool :=
  (physicalPorts nodep).any fun p =>
    p.state.isUp && p.portData.any fun d => decide (dgIdx ∈ d.dgMember)

/-- The part of `hypercube_post_process_discovery` that marks hosts.  It returns from the whole
routine at the first port it finds. -/
def markRouteLast (skipBalance : Nat → Bool) : Nat → Bool :=
  if s.routeLast.length = 0 then skipBalance
  else
    match smGetDgIdx s.cfg s.routeLast with
    | none => skipBalance
    | some dgIdx =>
      match (s.topop.nodes.filter fun n => n.nodeType = .ca).find? fun n => inGroup n dgIdx with
      | none => skipBalance
      | some nodep => Function.update skipBalance nodep.index true

end HypercubeState

end OpaFm.Routing
