import OpaFm.Fabric.Topology

/-!
# Spanning trees

`sm_ideal_spanning_tree` searches the switches breadth-first from the root and
hangs each below the first one that reaches it over a link with the MTU and the
rate asked for.  A switch is put on the list before its link is looked at.
-/

namespace OpaFm.Multicast

open OpaFm.Fabric

/-- `McNode_t`.  `nodeno` and `portno` name the parent's end of the link to it, and
`parent` is the place of the parent in the array; all are `none` for `-1` and
`NULL`. -/
structure McNode where
  index : Nat
  nodeno : Option Nat := none
  portno : Option Nat := none
  parent : Option Nat := none
  mftMlidInit : Nat := 0
  deriving DecidableEq, Repr

structure McSpanningTree where
  nodes : List McNode
  firstMlid : Nat := 0
  deriving DecidableEq, Repr

/-- What `sm_ideal_spanning_tree` changes: the entries, the count of links, the
list of switches to look at and the `mcSpanningChkDone` flags, the last two by
node index. -/
structure SpanState where
  mcNodes : List McNode
  numLinks : Nat := 0
  swlist : List Nat := []
  chkDone : List Nat := []

def islPeer (topop : Topology) (root : Node) (filterMtuRate : Bool) (nodep : Node) (portp : Port) :
    Option Node :=
  if smValidPort portp ∧
      (if filterMtuRate then PortState.active.code ≤ portp.state.code else portp.state.isUp) ∧
      portp.nodeno ≠ none ∧ portp.portno ≠ none ∧
      portp.nodeno ≠ some root.index ∧ portp.nodeno ≠ some nodep.index then
    (smFindNode topop portp.nodeno).filter fun n => n.nodeType = .switch
  else none

def meetsMtuRate (mtu rate : Nat) (portp : Port) : Bool :=
  portp.portData.any fun d => mtu ≤ d.maxVlMtu ∧ ¬linkrateLt d.rate rate

def listPeer (peer : Node) (s : SpanState) : SpanState :=
  if peer.index ∉ s.chkDone ∧ peer.index ∉ s.swlist then
    { s with swlist := s.swlist ++ [peer.index] }
  else s

/-- Hanging a peer below `nodep`, unless it has a parent. -/
def attachPeer (peer nodep : Node) (portp : Port) (s : SpanState) : SpanState :=
  if s.mcNodes.any fun m => m.index = peer.index ∧ m.nodeno = none then
    { s with
      mcNodes := s.mcNodes.map fun m =>
        if m.index = peer.index then
          { m with
            nodeno := some nodep.index
            portno := some portp.index
            parent := s.mcNodes.findIdx? fun m => m.index = nodep.index }
        else m
      numLinks := s.numLinks + 1 }
  else s

def spanPort (topop : Topology) (root : Node) (filterMtuRate : Bool) (mtu rate : Nat)
    (nodep : Node) (s : SpanState) (portp : Port) : SpanState :=
  match islPeer topop root filterMtuRate nodep portp with
  | none => s
  | some peer =>
    let s := listPeer peer s
    if filterMtuRate ∧ ¬meetsMtuRate mtu rate portp then s else attachPeer peer nodep portp s

def spanSwitch (topop : Topology) (root : Node) (filterMtuRate : Bool) (mtu rate : Nat)
    (nodep : Node) (s : SpanState) : SpanState :=
  let s := (physicalPorts nodep).foldl (spanPort topop root filterMtuRate mtu rate nodep) s
  { s with chkDone := s.chkDone ++ [nodep.index] }

/-- The loop over the listed switches, from `nodep`. -/
def spanLoop (topop : Topology) (root : Node) (filterMtuRate : Bool) (mtu rate : Nat) :
    Nat → Option Node → SpanState → Option SpanState
  | _, none, s => some s
  | 0, some _, _ => none
  | fuel + 1, some nodep, s =>
    let s := spanSwitch topop root filterMtuRate mtu rate nodep s
    match s.swlist with
    | [] => spanLoop topop root filterMtuRate mtu rate fuel none s
    | i :: rest =>
      spanLoop topop root filterMtuRate mtu rate fuel (smFindNode topop (some i))
        { s with swlist := rest }

/-- The entries as `sm_spanning_tree` prepares them. -/
def initMcNodes (topop : Topology) : List McNode := topop.switches.map fun n => { index := n.index }

/-- `sm_ideal_spanning_tree`: the entries and `complete`. -/
def smIdealSpanningTree (topop : Topology) (root : Node) (filterMtuRate : Bool) (mtu rate fuel : Nat) :
    Option (List McNode × Bool) :=
  (spanLoop topop root filterMtuRate mtu rate fuel (some root)
    { mcNodes := initMcNodes topop }).map fun s =>
      (s.mcNodes, s.numLinks + 1 = s.mcNodes.length)

/-!
## Spanning trees in the order of discovery

Without a root for the search, `sm_spanning_tree` goes through the switches as discovery has
found them, and hangs below each one the later ones that it has a good link to.
-/

/-- The entries, and the count of links. -/
structure LegacyState where
  mcNodes : List McNode
  numLinks : Nat := 0

def legacyPeer (topop : Topology) (mtu rate : Nat) (portp : Port) : Option Nat :=
  if smValidPort portp ∧ PortState.active.code ≤ portp.state.code ∧
      portp.nodeno ≠ none ∧ portp.portno ≠ none ∧ meetsMtuRate mtu rate portp then
    ((smFindNode topop portp.nodeno).filter fun n => n.nodeType = .switch).bind fun _ => portp.nodeno
  else none

/-- The loop over the entries after `i`, which ends at the first for the peer. -/
def attachLater (i : Nat) (nodep : Node) (portp : Port) (peer : Nat) (s : LegacyState) :
    LegacyState :=
  match ((s.mcNodes.drop (i + 1)).zipIdx (i + 1)).find? fun m => m.1.index = peer with
  | none => s
  | some (m, j) =>
    if m.nodeno = none then
      { mcNodes := s.mcNodes.set j
          { m with nodeno := some nodep.index, portno := some portp.index, parent := some i }
        numLinks := s.numLinks + 1 }
    else s

def legacyPort (topop : Topology) (mtu rate i : Nat) (nodep : Node) (s : LegacyState)
    (portp : Port) : LegacyState :=
  match legacyPeer topop mtu rate portp with
  | none => s
  | some peer => attachLater i nodep portp peer s

def legacySwitch (topop : Topology) (mtu rate : Nat) (s : LegacyState) (i : Nat) : LegacyState :=
  match smFindNode topop ((s.mcNodes[i]?).map (·.index)) with
  | none => s
  | some nodep => (physicalPorts nodep).foldl (legacyPort topop mtu rate i nodep) s

/-- `sm_spanning_tree` from where it computes the tree itself: the entries and `complete`. -/
def smSpanningTreeLegacy (topop : Topology) (mtu rate : Nat) : List McNode × Bool :=
  let mcNodes := initMcNodes topop
  let s := (List.range (mcNodes.length - 1)).foldl (legacySwitch topop mtu rate)
    { mcNodes := mcNodes }
  (s.mcNodes, s.numLinks + 1 = mcNodes.length)

end OpaFm.Multicast
