import OpaFm.Multicast.LidPool
import OpaFm.Multicast.SpanningTree
import OpaFm.Multicast.McMemberRecord

/-!
# Multicast forwarding tables

`sm_calculate_mfts` up to pruning.  The port mask of each spanning tree is drawn
into the row of the first MLID that uses the tree, copied from there to the rows
of the other MLIDs, and the ports of group members are added.
-/

namespace OpaFm.Multicast

open OpaFm.Fabric

/-! ## Tables -/

def findMlidOffset (mLid : Nat) : Nat := mLid % 0x4000

def stlPortMaskWidth : Nat := 64

def mftPosition (port : Nat) : Nat := port / stlPortMaskWidth

def mftPortmaskBit (port : Nat) : BitVec 64 := 1#64 <<< (port % stlPortMaskWidth)

/-- The `mft` of every switch: node index, MLID offset, position. -/
abbrev Mfts := Nat → Nat → Nat → BitVec 64

namespace Mfts

/-- `nodep->mft[offset][Mft_Position(port)] = word`. -/
def store (mft : Mfts) (node offset position : Nat) (word : BitVec 64) : Mfts :=
  fun n o q => if n = node ∧ o = offset ∧ q = position then word else mft n o q

def assignBit (mft : Mfts) (node offset port : Nat) : Mfts :=
  mft.store node offset (mftPosition port) (mftPortmaskBit port)

def orBit (mft : Mfts) (node offset port : Nat) : Mfts :=
  mft.store node offset (mftPosition port)
    (mft node offset (mftPosition port) ||| mftPortmaskBit port)

def copyRow (mft : Mfts) (node source target : Nat) : Mfts :=
  fun n o q => if n = node ∧ o = target then mft node source q else mft n o q

def bit (mft : Mfts) (node offset port : Nat) : Bool :=
  (mft node offset (mftPosition port)).getLsbD (port % stlPortMaskWidth)

end Mfts

/-! ## What the tables are made from -/

/-- The new topology, the configuration, and for each MTU and rate the place of
its tree in `uniqueSpanningTrees`. -/
structure MftEnv where
  topo : Topology
  portMap : Nat → Option ValidPort
  disableMcastCheck : McGroupJoinBehavior := .strict
  maxMcastMtu : Nat := stlMtu8192
  maxMcastRate : Nat := ibStaticRate100G
  maxIslMtu : Nat := stlMtu8192
  maxIslRate : Nat := ibStaticRate100G
  mlidTableCap : MlidTableCap
  spanningTrees : Nat → Nat → Option Nat

structure MftState where
  groups : List McGroup
  uniqueSpanningTrees : List McSpanningTree
  mft : Mfts := fun _ _ _ => 0

def MftEnv.treeOf (env : MftEnv) (g : McGroup) : Option Nat := env.spanningTrees g.mtu g.rate

/-! ## Realizable groups -/

/-- The tests that `sm_check_mc_groups_realizable` makes of a group. -/
def isRealizable (env : MftEnv) (g : McGroup) : Bool :=
  let (maxMtu, maxRate) :=
    if env.disableMcastCheck ≠ .relaxed then (env.maxMcastMtu, env.maxMcastRate)
    else (env.maxIslMtu, env.maxIslRate)
  (env.treeOf g).isSome ∧ g.mtu ≤ maxMtu ∧ ¬linkrateGt g.rate maxRate ∧
    findMlidOffset g.mLid < env.mlidTableCap.cap

/-- `tree->first_mlid`, set by the first group that has the tree. -/
def noteFirstMlid (env : MftEnv) (trees : List McSpanningTree) (g : McGroup) :
    List McSpanningTree :=
  if g.unrealizable then trees
  else
    match env.treeOf g with
    | none => trees
    | some i =>
      trees.modify i fun t => if t.firstMlid = 0 then { t with firstMlid := g.mLid } else t

def smCheckMcGroupsRealizable (env : MftEnv) (s : MftState) : MftState :=
  let groups := s.groups.map fun g => { g with unrealizable := !isRealizable env g }
  { s with
    groups := groups
    uniqueSpanningTrees := groups.foldl (noteFirstMlid env) s.uniqueSpanningTrees }

/-! ## Port masks of trees -/

/-- Setting a port in the row of a switch, whose entry is at `place`.  The first
time in a tree the word is assigned. -/
def setMaskBit (firstMlid place : Nat) (node : Node) (port : Nat) (nodes : List McNode)
    (mft : Mfts) : List McNode × Mfts :=
  let offset := findMlidOffset firstMlid
  if nodes[place]?.any fun m => m.mftMlidInit ≠ firstMlid then
    (nodes.modify place fun m => { m with mftMlidInit := firstMlid },
      mft.assignBit node.index offset port)
  else (nodes, mft.orBit node.index offset port)

/-- The two ends of the link above an entry: the parent's port with its node, and
if it is there the port of the entry's own switch. -/
structure LinkEnds where
  parentPort : Port
  parentNode : Option Node
  port : Option Port
  node : Option Node

/-- The ends of the link of an entry that has a parent, if the parent's port is
found and valid. -/
def linkEnds (topo : Topology) (m : McNode) : Option LinkEnds :=
  match m.nodeno with
  | none => none
  | some nodeno =>
    match smFindPort topo (some nodeno) m.portno with
    | none => none
    | some parentPort =>
      if smValidPort parentPort then
        some
          { parentPort := parentPort
            parentNode := smFindNode topo (some nodeno)
            port := smFindPort topo parentPort.nodeno parentPort.portno
            node := smFindNode topo parentPort.nodeno }
      else none

def maskChild (firstMlid j : Nat) (ends : LinkEnds) (s : List McNode × Mfts) :
    List McNode × Mfts :=
  match ends.port, ends.node with
  | some portp, some nodep =>
    if smValidPort portp then setMaskBit firstMlid j nodep portp.index s.1 s.2 else s
  | _, _ => s

def maskParent (firstMlid : Nat) (parent : Option Nat) (ends : LinkEnds)
    (s : List McNode × Mfts) : List McNode × Mfts :=
  match ends.parentNode, parent with
  | some nodep, some k => setMaskBit firstMlid k nodep ends.parentPort.index s.1 s.2
  | _, _ => s

/-- The loop body of `sm_calculate_spanning_tree_port_mask` for one entry. -/
def maskEntry (topo : Topology) (firstMlid : Nat) (s : List McNode × Mfts) (j : Nat) :
    List McNode × Mfts :=
  match s.1[j]? with
  | none => s
  | some m =>
    match linkEnds topo m with
    | none => s
    | some ends => maskParent firstMlid m.parent ends (maskChild firstMlid j ends s)

def maskTree (topo : Topology) (t : McSpanningTree) (mft : Mfts) : McSpanningTree × Mfts :=
  if t.firstMlid = 0 then (t, mft)
  else
    let r := (List.range t.nodes.length).foldl (maskEntry topo t.firstMlid) (t.nodes, mft)
    ({ t with nodes := r.1 }, r.2)

def smCalculateSpanningTreePortMask (topo : Topology) :
    List McSpanningTree → Mfts → List McSpanningTree × Mfts
  | [], mft => ([], mft)
  | t :: trees, mft =>
    let (t', mft) := maskTree topo t mft
    let (trees', mft) := smCalculateSpanningTreePortMask topo trees mft
    (t' :: trees', mft)

/-! ## Rows of the other MLIDs -/

def smMulticastGetMaxLid (groups : List McGroup) : Nat :=
  groups.foldl (fun maxLid g => if maxLid < g.mLid then g.mLid else maxLid) 0

def rowTree (env : MftEnv) (groups : List McGroup) (numTrees mlidOffset : Nat) : Option Nat :=
  if numTrees = 1 then some 0
  else
    (groups.find? fun g =>
      !g.unrealizable && g.mLid == smMulticastGetMaxLid groups - mlidOffset).bind env.treeOf

def fillRow (env : MftEnv) (groups : List McGroup) (trees : List McSpanningTree) (node : Nat)
    (mft : Mfts) (mlidOffset : Nat) : Mfts :=
  match (rowTree env groups trees.length mlidOffset).bind (trees[·]?) with
  | none => mft
  | some t =>
    if t.firstMlid = 0 then mft
    else if mlidOffset ≠ findMlidOffset t.firstMlid then
      mft.copyRow node (findMlidOffset t.firstMlid) mlidOffset
    else mft

def fillRows (env : MftEnv) (groups : List McGroup) (trees : List McSpanningTree) (mft : Mfts)
    (n : Node) : Mfts :=
  (List.range (findMlidOffset (smMulticastGetMaxLid groups) + 1)).foldl
    (fillRow env groups trees n.index) mft

/-! ## Members -/

def saFakeMulticastGroupMember : Nat := 0x00066A00FACADE01

/-- The switch and the port of a member that is to receive: it is active, behind a
switch, and a full or a non-member. -/
def receivingPort (env : MftEnv) (m : McMember) : Option (Node × Nat) :=
  if m.portGuid = saFakeMulticastGroupMember then none
  else
    ((env.portMap m.portGuid).filter fun vp => PortState.armed.code ≤ vp.port.state.code).bind
      fun vp =>
        ((smFindNode env.topo vp.port.nodeno).filter fun n => n.nodeType = .switch).bind fun n =>
          if m.record.joinNonMember ∨ m.record.joinFullMember then
            vp.port.portno.map fun p => (n, p)
          else none

def addMembers (env : MftEnv) (mft : Mfts) (g : McGroup) : Mfts :=
  if g.unrealizable then mft
  else
    g.mcMembers.foldl
      (fun mft m =>
        match receivingPort env m with
        | none => mft
        | some (n, p) => mft.orBit n.index (findMlidOffset g.mLid) p)
      mft

def smAddMcmemberPortMasks (env : MftEnv) (groups : List McGroup) (mft : Mfts) : Mfts :=
  groups.foldl (addMembers env) mft

def smCalculateMfts (env : MftEnv) (s : MftState) : MftState :=
  let trees := s.uniqueSpanningTrees.map fun t => { t with firstMlid := 0 }
  let s := smCheckMcGroupsRealizable env { s with uniqueSpanningTrees := trees }
  let (trees, mft) := smCalculateSpanningTreePortMask env.topo s.uniqueSpanningTrees s.mft
  let mft := env.topo.switches.foldl (fillRows env s.groups trees) mft
  { s with uniqueSpanningTrees := trees, mft := smAddMcmemberPortMasks env s.groups mft }

/-!
## Groups at take-over

A standby that becomes master inherits the groups of the old master.  In its first sweep
`sm_dbsync_upsmlist` walks through them and deletes the members whose port is no longer in the
fabric.  The environment is that of `sm_newTopology`.
-/

def McMember.stateFull (m : McMember) : Bool := m.state &&& mcMemberJoinFullMember ≠ 0

def McMember.isStale (env : SaEnv) (m : McMember) : Bool :=
  m.portGuid ≠ saFakeMulticastGroupMember && (smFindPortLid env m.slid).isNone

/-- The walk through the members of `g`, which are `kept ++ rest`.  The group is deleted when its
last full member is, and then it is none. -/
def upMembers (env : SaEnv) (g : McGroup) : List McMember → List McMember → Option McGroup
  | kept, [] => some { g with mcMembers := kept }
  | kept, m :: rest =>
    if m.isStale env then
      let membersFull := if m.stateFull then dec32 g.membersFull else g.membersFull
      if membersFull = 0 then none
      else if kept ++ rest = [] then none
      else upMembers env { g with membersFull := membersFull } kept rest
    else upMembers env g (kept ++ [m]) rest

def upGroup (env : SaEnv) (g : McGroup) : Option McGroup := upMembers env g [] g.mcMembers

/-- `McGroup_Delete`, less the list.  The pool reads nothing of a group that the walk changes. -/
def mcGroupDelete (st : SaState) (g : McGroup) : Except Fault SaState := do
  let pool ← smMulticastDecommisionGroup st.pool g
  pure { st with pool := pool, numMcGroups := st.numMcGroups - 1 }

/-- The walk through the groups, `kept ++ rest`, with `mcGroup` at the head of `rest`.  After a
deletion `mcGroup` is the group before, and the loop goes on with the one after that.  At the head
of the list there is no group before, and `mcGroup` becomes the new head. -/
def upGroups (env : SaEnv) : SaState → List McGroup → List McGroup → Except Fault SaState
  | st, kept, [] => .ok { st with mcGroups := kept }
  | st, kept, g :: rest =>
    match upGroup env g with
    | some g' => upGroups env st (kept ++ [g']) rest
    | none =>
      (mcGroupDelete st g).bind fun st' =>
        match kept with
        | [] =>
          match rest with
          | [] => .ok { st' with mcGroups := [] }
          | next :: rest' => upGroups env st' [next] rest'
        | p :: ps => upGroups env st' (p :: ps) rest

def smDbsyncUpsmlist (env : SaEnv) (st : SaState) : Except Fault SaState :=
  upGroups env st [] st.mcGroups

end OpaFm.Multicast
