import OpaFm.Routing.SelectPorts

/-!
# Port groups

`sm_routing_func_setup_pgs`: the ports by which a switch can reach a destination switch
are a group of the port group table (PGT), and the LIDs at the destination get the
number of the group in the port group forwarding table (PGFT).
-/

namespace OpaFm.Routing

open OpaFm.Fabric

def numPgftElementsBlock : Nat := 0x40
def defaultMaxPgftBlockNum : Nat := 0x80

def roundup (val align : Nat) : Nat := (val + align - 1) / align * align

/-- What a switch has for adaptive routing.  Fields of its `SwitchInfo` stand beside
those of the node. -/
structure ArSwitch where
  arSupport : Bool
  arChange : Bool
  isAdaptiveRoutingSupported : Bool
  linearFDBTop : Nat
  portGroupFDBCap : Nat
  portGroupCap : Fin 256
  portGroupTop : Nat
  pgt : Nat → BitVec 64
  pgtLen : Nat
  pgft : Option (Nat → Nat)
  pgftSize : Nat

/-! ## The tables -/

structure PushResult where
  rc : Int
  index : Nat
  pgp : Nat → BitVec 64
  length : Nat

def smPushPortGroup (pgp : Nat → BitVec 64) (newPg : BitVec 64) (length cap : Nat) : PushResult :=
  let i := ((List.range length).find? fun i => newPg == pgp i).getD length
  if i = length then
    if length < cap then
      { rc := 1, index := i, pgp := Function.update pgp i newPg, length := i + 1 }
    else { rc := -1, index := i, pgp := pgp, length := length }
  else { rc := 0, index := i, pgp := pgp, length := length }

namespace ArSwitch

variable (sw : ArSwitch)

def smNodeComputePgftSize : Nat :=
  let pgftCap :=
    if sw.portGroupFDBCap ≠ 0 then sw.portGroupFDBCap
    else defaultMaxPgftBlockNum * numPgftElementsBlock
  roundup (if sw.linearFDBTop < pgftCap then sw.linearFDBTop + 1 else pgftCap) numPgftElementsBlock

/-- `sm_Node_get_pgft_wr`, with whether it returns a table; `mem` tells whether there is
memory for one. -/
def smNodeGetPgftWr (mem : Bool) : ArSwitch × Bool :=
  if !sw.isAdaptiveRoutingSupported then (sw, false)
  else
    let pgftLen := sw.smNodeComputePgftSize
    match sw.pgft with
    | none =>
      if mem then ({ sw with pgft := some fun _ => 0xff, pgftSize := pgftLen }, true)
      else (sw, false)
    | some pgft =>
      if sw.pgftSize < pgftLen then
        if mem then
          ({ sw with
              pgft := some fun lid => if lid < sw.pgftSize then pgft lid else 0xff
              pgftSize := pgftLen }, true)
        else (sw, false)
      else (sw, true)

def setPgftEntry (pgid lid : Nat) : ArSwitch :=
  match sw.pgft with
  | none => sw
  | some pgft =>
    if lid < sw.pgftSize then
      { sw with
        arChange := sw.arChange || pgft lid != pgid
        pgft := some (Function.update pgft lid pgid) }
    else sw

end ArSwitch

/-! ## The destination -/

def portLids (p : Port) : List Nat :=
  p.portData.elim [] fun d => List.range' d.lid (2 ^ d.lmc)

def endNodePort (topop : Topology) (edgePort : Port) : Option Port :=
  if smValidPort edgePort ∧ edgePort.state.isUp then
    (smFindNode topop edgePort.nodeno).bind fun endNode =>
      (edgePort.portno.bind (smGetPort endNode)).filter fun endPort =>
        endNode.nodeType = .ca ∧ smValidPort endPort
  else none

def destinationLids (topop : Topology) (dstSw : Node) : List Nat :=
  portLids (dstSw.port 0) ++
    ((physicalPorts dstSw).filterMap (endNodePort topop)).flatMap portLids

def portGroupMask (orderedPorts : List SwitchportToNextGuid) : BitVec 64 :=
  orderedPorts.foldl (fun pgMask e =>
    if e.portp.index = 0 ∨ 64 < e.portp.index then pgMask
    else pgMask ||| 1#64 <<< (e.portp.index - 1)) 0

/-! ## Setting up -/

/-- The switch that the groups are for, and what `select_ports` of the routing module
selects there for each destination: ports that a path can go through. -/
structure PgSource where
  topop : Topology
  enable : Bool
  srcSw : Node
  selectPorts : Nat → List SwitchportToNextGuid
  numbered : ∀ j, ∀ e ∈ selectPorts j, 1 ≤ e.portp.index ∧ e.portp.index ≤ maxStlPorts

/-- The result, and the LIDs whose entries were written. -/
structure PgResult where
  status : Status
  sw : ArSwitch
  wrote : List Nat

namespace PgSource

variable (src : PgSource)

def considered (sw : ArSwitch) (dstSw : Node) : Bool :=
  decide (dstSw.nodeType = .switch ∧ src.srcSw.swIdx ≠ dstSw.swIdx) && src.enable && sw.arSupport

/-- The part of `sm_routing_func_setup_pgs` for a destination with several paths. -/
def pushGroup (sw : ArSwitch) (dstSw : Node) (mem : Bool) : PgResult :=
  let pgMask := portGroupMask (src.selectPorts dstSw.swIdx)
  let pushed := smPushPortGroup sw.pgt pgMask sw.pgtLen sw.portGroupCap
  let sw := { sw with pgt := pushed.pgp, pgtLen := pushed.length }
  if pushed.rc < 0 then ⟨.ok, sw, []⟩
  else
    let sw :=
      { sw with
        arChange := sw.arChange || decide (0 < pushed.rc)
        portGroupTop := sw.pgtLen }
    let (sw, acquired) := sw.smNodeGetPgftWr mem
    if !acquired then ⟨.bad, sw, []⟩
    else
      let lids := destinationLids src.topop dstSw
      ⟨.ok, lids.foldl (fun sw lid => sw.setPgftEntry pushed.index lid) sw,
        lids.filter (· < sw.pgftSize)⟩

def smRoutingFuncSetupPgs (sw : ArSwitch) (dstSw : Node) (mem : Bool) : PgResult :=
  if src.srcSw.nodeType ≠ .switch then ⟨.bad, sw, []⟩
  else if !src.considered sw dstSw then ⟨.ok, sw, []⟩
  else if !smValidPort (dstSw.port 0) then ⟨.bad, sw, []⟩
  else if (src.selectPorts dstSw.swIdx).length ≤ 1 then ⟨.ok, { sw with portGroupTop := 0 }, []⟩
  else src.pushGroup sw dstSw mem

end PgSource

/-!
## Pruning port groups

`sm_Node_prune_portgroups` leaves in each group of the PGT the ports with the highest rate.  It
walks the mask of a group bit by bit and passes over a port that is not up without going to the
next bit.
-/

def linkrateGe (r₁ r₂ : Nat) : Bool := linkrateToOrdinal r₂ ≤ linkrateToOrdinal r₁

/-- A loop that has not come to its end, or an access to a port or a bit that there is not. -/
inductive PruneFault where
  | running
  | undefined
  deriving DecidableEq, Repr

/-- The variables of the loop over one mask. -/
structure PruneLoop where
  portIdx : Nat
  pm : BitVec 64
  maxRate : Nat
  newPm : BitVec 64

def pruneStart (i : Nat) : Nat := (i / 64 * 64 % 256 + 1) % 256

def PruneLoop.take (s : PruneLoop) (port : Port) (rate : Nat) : PruneLoop :=
  let faster := linkrateGt rate s.maxRate
  let newPm := if faster then 0 else s.newPm
  { portIdx := (s.portIdx + 1) % 256
    pm := s.pm >>> 1
    maxRate := if linkrateGe rate s.maxRate && faster then rate else s.maxRate
    newPm :=
      if linkrateGe rate s.maxRate then newPm ||| 1#64 <<< ((port.index - 1) % 64) else s.newPm }

/-- The body of the `while`.  A port that is not up leaves the variables as they are. -/
def pruneBody (switchp : Node) (s : PruneLoop) : Except PruneFault PruneLoop :=
  if s.pm.getLsbD 0 = false then
    .ok { s with portIdx := (s.portIdx + 1) % 256, pm := s.pm >>> 1 }
  else
    match smGetPort switchp s.portIdx with
    | none => .error .undefined
    | some port =>
      match port.portData with
      | none => .ok s
      | some data =>
        if port.state.code < PortState.init.code then .ok s
        else if linkrateGe data.rate s.maxRate ∧ port.index = 0 then .error .undefined
        else .ok (s.take port data.rate)

def pruneLoop (switchp : Node) : Nat → PruneLoop → Except PruneFault (BitVec 64)
  | 0, _ => .error .running
  | fuel + 1, s =>
    if s.pm = 0 then .ok s.newPm
    else
      match pruneBody switchp s with
      | .error e => .error e
      | .ok s' => pruneLoop switchp fuel s'

def pruneGroup (switchp : Node) (fuel : Nat) (sw : ArSwitch) (i : Nat) :
    Except PruneFault ArSwitch := do
  let newPm ← pruneLoop switchp fuel ⟨pruneStart i, sw.pgt i, 0, 0⟩
  pure (if newPm = sw.pgt i then sw
    else { sw with pgt := Function.update sw.pgt i newPm, arChange := true })

/-- `sm_Node_prune_portgroups`; `hasPgt` tells whether the switch has a PGT. -/
def smNodePrunePortgroups (switchp : Node) (hasPgt : Bool) (fuel : Nat) (sw : ArSwitch) :
    Except PruneFault ArSwitch :=
  if !hasPgt then .ok sw
  else (List.range sw.portGroupTop).foldlM (pruneGroup switchp fuel) sw

end OpaFm.Routing
