import OpaFm.Routing.PortGroups

/-!
# Hosts at a switch

What the routines that compute whole forwarding tables go through: the links of a switch to
hosts, the end ports of a host and their LIDs.
-/

namespace OpaFm.Routing

open OpaFm.Fabric

/-- The forwarding table of a switch by LID; `none` is an entry as `sm_Node_init_lft` leaves
it. -/
abbrev Lft := Nat → Option Nat

def isLive (p : Port) : Bool := smValidPort p && p.state.isUp

def hostLinks (topop : Topology) (toSwitchp : Node) : List (Port × Node) :=
  ((physicalPorts toSwitchp).filter isLive).filterMap fun toSwitchPortp =>
    ((smFindNode topop toSwitchPortp.nodeno).filter fun n => n.nodeType = .ca).map
      fun nodep => (toSwitchPortp, nodep)

def liveEndPorts (nodep : Node) : List Port := (endPorts nodep).filter isLive

def hostLids (nodep : Node) : List Nat := (liveEndPorts nodep).flatMap portLids

def incrLidsRouted (topop : Topology) (load : RouteLoad) (switchp : Node) (port : Nat) : RouteLoad :=
  match smGetPort switchp port with
  | none => load
  | some swPortp =>
    if smValidPort swPortp ∧ PortState.init.code ≤ swPortp.state.code then
      { load with
        lidsRouted := fun n p =>
          if n = switchp.index ∧ p = port then (load.lidsRouted n p + 1) % 0x10000
          else load.lidsRouted n p
        numLidsRouted := fun n =>
          if (smFindNode topop swPortp.nodeno).any fun nextSwp => n = nextSwp.index then
            (load.numLidsRouted n + 1) % 0x10000
          else load.numLidsRouted n }
    else load

/-- A discovered fabric with its LIDs: nodes are told apart by their indices, a live port of a host
at a switch has a live port there at its other end, and a LID belongs to one end port. -/
structure Wired (topop : Topology) : Prop where
  distinct : (topop.nodes.map Node.index).Nodup
  port_index : ∀ nodep ∈ topop.nodes, ∀ q, (nodep.port q).index = q
  link_back : ∀ nodep ∈ topop.nodes, nodep.nodeType = .ca → ∀ portp ∈ liveEndPorts nodep,
    ∀ switchp ∈ topop.switches, portp.nodeno = some switchp.index →
      ∃ q, portp.portno = some q ∧ 1 ≤ q ∧ q ≤ switchp.numPorts ∧
        isLive (switchp.port q) = true ∧ (switchp.port q).nodeno = some nodep.index
  lid_pos : ∀ nodep ∈ topop.nodes, ∀ portp ∈ liveEndPorts nodep, ∀ lid ∈ portLids portp, 0 < lid
  lid_unique : ∀ n ∈ topop.nodes, ∀ n' ∈ topop.nodes, ∀ p ∈ liveEndPorts n, ∀ p' ∈ liveEndPorts n',
    ∀ lid, lid ∈ portLids p → lid ∈ portLids p' → n = n' ∧ p = p'

/-!
## Tables for hosts in passes

The routines for hypercubes and fat trees go through the hosts behind all edge switches, switch by
switch.  With a device group of hosts to be routed last there is a second pass, for the edge
switches that such hosts are at.  What differs between the routines is the order of the switches and
how a port of a group is chosen for a LID.
-/

/-- An assignment to an entry, and whether it is counted for the port. -/
structure LftWrite where
  switch : Nat
  lid : Nat
  port : Nat
  counted : Bool
  deriving DecidableEq, Repr

/-- The forwarding tables of all switches by node index, the counters, the `skipBalance` flags of
the nodes, and the assignments to the tables in their order. -/
structure LftTables where
  lft : Nat → Lft := fun _ _ => none
  load : RouteLoad := {}
  skipBalance : Nat → Bool
  wrote : List LftWrite := []

namespace LftTables

def initLft (t : LftTables) (switchp : Node) : LftTables :=
  { t with
    lft := Function.update t.lft switchp.index fun _ => none
    wrote := t.wrote.filter fun w => w.switch ≠ switchp.index }

def attach (t : LftTables) (switchp : Node) (lid port : Nat) : LftTables :=
  { t with
    lft := Function.update t.lft switchp.index
      (Function.update (t.lft switchp.index) lid (some port))
    wrote := t.wrote ++ [⟨switchp.index, lid, port, false⟩] }

/-- An assignment followed by `incr_lids_routed`. -/
def assign (topop : Topology) (t : LftTables) (switchp : Node) (lid port : Nat) : LftTables :=
  { t with
    lft := Function.update t.lft switchp.index
      (Function.update (t.lft switchp.index) lid (some port))
    load := incrLidsRouted topop t.load switchp port
    wrote := t.wrote ++ [⟨switchp.index, lid, port, true⟩] }

def setSkipBalance (t : LftTables) (nodep : Node) : LftTables :=
  { t with skipBalance := Function.update t.skipBalance nodep.index true }

end LftTables

/-- A routine of this kind, with the counters `γ` that it keeps to choose ports: the switches that
tables are computed for and the edge switches they are visited for, the links to hosts, the port
group towards an edge switch, what is reset when a switch has its turn and what is set when it comes
to an edge switch, and the assignments for one host; an empty group stands for the switch itself. -/
structure HostRouting (γ : Type) where
  topop : Topology
  sources : List Node
  targets : List Node
  edgeSwitch : Node → Bool
  links : Node → List (Port × Node)
  group : RouteLoad → Node → Node → List Nat
  start : γ → γ
  enter : Node → List Nat → γ → γ
  host : Node → List Nat → Port × Node → LftTables × γ → LftTables × γ

namespace HostRouting

variable {γ : Type} (R : HostRouting γ)

/-- The loop body for one link of `toSwitchp`. -/
def routeLink (r : Nat) (switchp : Node) (portGroup : List Nat) (toSwitchp : Node)
    (s : LftTables × γ) (l : Port × Node) : LftTables × γ :=
  if r = 0 ∧ s.1.skipBalance l.2.index then (s.1.setSkipBalance toSwitchp, s.2)
  else R.host switchp portGroup l s

def routeTo (r : Nat) (switchp : Node) (s : LftTables × γ) (toSwitchp : Node) : LftTables × γ :=
  if !R.edgeSwitch toSwitchp then s
  else if r = 1 ∧ !s.1.skipBalance toSwitchp.index then s
  else if switchp.index = toSwitchp.index then
    (R.links toSwitchp).foldl (R.routeLink r switchp [] toSwitchp) s
  else
    let portGroup := R.group s.1.load switchp toSwitchp
    if portGroup.length = 0 then s
    else
      (R.links toSwitchp).foldl (R.routeLink r switchp portGroup toSwitchp)
        (s.1, R.enter switchp portGroup s.2)

def turn (r : Nat) (s : LftTables × γ) (switchp : Node) : LftTables × γ :=
  R.targets.foldl (R.routeTo r switchp) (s.1, R.start s.2)

def pass (s : LftTables × γ) (r : Nat) : LftTables × γ := R.sources.foldl (R.turn r) s

def passes (routeLast : String) (s : LftTables × γ) : LftTables × γ :=
  (List.range (if routeLast.length = 0 then 1 else 2)).foldl R.pass s

end HostRouting

end OpaFm.Routing
