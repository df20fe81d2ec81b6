import OpaFm.Routing.CostMatrix
import Mathlib.Algebra.Order.Ring.Nat

/-!
# Choosing ports

`sm_routing_func_select_ports` goes through the ports of a path mask and keeps
those of the best speed, or the one that is least used.  `_balance_ports` then
orders a selection of several by how much each is used.
-/

namespace OpaFm.Routing

open OpaFm.Fabric

/-- The counters of routed LIDs: of a port by node and port index, of a node by its
index. -/
structure RouteLoad where
  lidsRouted : Nat → Nat → Nat := fun _ _ => 0
  baseLidsRouted : Nat → Nat → Nat := fun _ _ => 0
  numLidsRouted : Nat → Nat := fun _ => 0
  numBaseLidsRouted : Nat → Nat := fun _ => 0

structure SwitchportToNextGuid where
  guid : Nat
  sysGuid : Nat := 0
  sortIndex : Nat := 0
  portp : Port
  nextSwp : Node

/-! ## Selection -/

inductive SpineFirstResult where
  | none
  | first
  | found
  | noMatch
  deriving DecidableEq, Repr

/-- `_spine_first_test`, with the new `state->matching`. -/
def spineFirstTest (matching : Bool) (switchp : Node) (portData : PortData) (nextNodep : Node) :
    SpineFirstResult × Bool :=
  if switchp.systemImageGuid ≠ nextNodep.systemImageGuid ∧ ¬portData.uplink then
    if matching then (.noMatch, matching) else (.none, matching)
  else if matching then (.found, matching)
  else (.first, true)

structure SelectState where
  bestSpeed : Nat := 0
  bestLidsRouted : Nat := 0xffff
  bestSwitchLidsRouted : Nat := 0xffffffff
  matching : Bool := false
  orderedPorts : List SwitchportToNextGuid := []

def maskedPort (topop : Topology) (switchp : Node) (cport : Nat) :
    Option (Port × PortData × Node) :=
  match smGetPort switchp cport with
  | none => none
  | some portp =>
    match portp.portData with
    | none => none
    | some portData =>
      if portp.state.isUp then
        ((smFindNode topop portp.nodeno).filter fun n => n.swIdx ≠ switchp.swIdx).map
          fun n => (portp, portData, n)
      else none

def considerPort (selectBest : Bool) (entry : SwitchportToNextGuid) (curSpeed lids swLids : Nat)
    (s : SelectState) : SelectState :=
  if s.bestSpeed ≤ curSpeed then
    if s.bestSpeed < curSpeed then
      { s with
        bestSpeed := curSpeed
        bestLidsRouted := lids
        bestSwitchLidsRouted := swLids
        orderedPorts := [entry] }
    else if selectBest then
      if lids < s.bestLidsRouted then
        { s with bestLidsRouted := lids, bestSwitchLidsRouted := swLids, orderedPorts := [entry] }
      else if lids = s.bestLidsRouted ∧ swLids < s.bestSwitchLidsRouted then
        { s with bestSwitchLidsRouted := swLids, orderedPorts := [entry] }
      else s
    else { s with orderedPorts := s.orderedPorts ++ [entry] }
  else s

def selectPort (topop : Topology) (load : RouteLoad) (doSpineCheck selectBest : Bool)
    (switchp : Node) (s : SelectState) (cport : Nat) : SelectState :=
  match maskedPort topop switchp cport with
  | none => s
  | some (portp, portData, nextNodep) =>
    let entry : SwitchportToNextGuid :=
      { guid := nextNodep.nodeGuid, portp := portp, nextSwp := nextNodep }
    let lids := load.lidsRouted switchp.index portp.index
    let swLids := load.numLidsRouted nextNodep.index
    let (sfres, matching) :=
      if doSpineCheck then spineFirstTest s.matching switchp portData nextNodep
      else (.none, s.matching)
    let s := { s with matching := matching }
    match sfres with
    | .first =>
      { s with
        bestSpeed := smGetSpeed portData
        bestLidsRouted := lids
        bestSwitchLidsRouted := swLids
        orderedPorts := [entry] }
    | .noMatch => s
    | .found | .none => considerPort selectBest entry (smGetSpeed portData) lids swLids s

/-- The ports of a mask in the order in which `sm_path_portmask_pop_first` gives
them. -/
def maskPorts (ports : Finset Nat) : List Nat :=
  (List.range' 1 maxStlPorts).filter fun p => p ∈ ports

def smRoutingFuncSelectPorts (topop : Topology) (path : Nat → Nat → Finset Nat) (load : RouteLoad)
    (doSpineCheck : Bool) (switchp : Node) (endIndex : Nat) (selectBest : Bool) :
    List SwitchportToNextGuid :=
  ((maskPorts (path switchp.swIdx endIndex)).foldl
    (selectPort topop load doSpineCheck selectBest switchp) {}).orderedPorts

/-! ## Order -/

/-- The library's `qsort`: it permutes, and it sorts by an order that is one. -/
structure Qsort (α : Type) where
  sort : (α → α → Ordering) → List α → List α
  perm : ∀ cmp l, (sort cmp l).Perm l
  sorted : ∀ cmp l, Std.TransCmp cmp → (sort cmp l).Pairwise fun a b => (cmp a b).isLE

def mergeQsort (α : Type) : Qsort α where
  sort := fun cmp l => l.mergeSort fun a b => (cmp a b).isLE
  perm := fun _ l => List.mergeSort_perm l _
  sorted := by
    intro cmp l _
    refine List.pairwise_mergeSort (fun a b c => Std.TransCmp.isLE_trans) (fun a b => ?_) l
    rw [@Std.OrientedCmp.eq_swap _ cmp _ b]
    cases cmp a b <;> rfl

def compareLidsRouted (load : RouteLoad) (switchp : Node) (a b : SwitchportToNextGuid) : Ordering :=
  (compare (load.lidsRouted switchp.index a.portp.index)
    (load.lidsRouted switchp.index b.portp.index)).then
  (compare (load.numLidsRouted a.nextSwp.index) (load.numLidsRouted b.nextSwp.index))

def compareGuidsThenLidsRouted (load : RouteLoad) (switchp : Node) (a b : SwitchportToNextGuid) :
    Ordering :=
  (compare a.guid b.guid).then (compareLidsRouted load switchp a b)

def compareLidsRoutedThenGuids (load : RouteLoad) (switchp : Node) (a b : SwitchportToNextGuid) :
    Ordering :=
  (compareLidsRouted load switchp a b).then
    ((compare a.guid b.guid).then (compare a.portp.index b.portp.index))

structure GuidCounter where
  guid : Nat
  offset : Nat
  count : Nat

def sortGuid (useSysGuid : Bool) (e : SwitchportToNextGuid) : Nat :=
  if useSysGuid then e.sysGuid else e.guid

/-- One port in the count of equal GUIDs, with the `prevGuid` of the loop. -/
def countGuid (useSysGuid : Bool) (s : List GuidCounter × Nat) (e : SwitchportToNextGuid × Nat) :
    List GuidCounter × Nat :=
  let guid := sortGuid useSysGuid e.1
  (if guid ≠ s.2 then s.1 ++ [⟨guid, e.2, 1⟩]
    else s.1.modify (s.1.length - 1) fun c => { c with count := c.count + 1 }, guid)

def countGuids (useSysGuid : Bool) (ports : List SwitchportToNextGuid) : List GuidCounter :=
  (ports.zipIdx.foldl (countGuid useSysGuid) ([], 0)).1

/-- The `while` loop that goes on to a GUID with ports left. -/
def nextAvailable (gc : List GuidCounter) : Nat → Nat → Option Nat
  | 0, _ => none
  | fuel + 1, j =>
    if gc[j]?.any fun c => c.count = 0 then nextAvailable gc fuel ((j + 1) % gc.length)
    else some j

/-- The first pass, which marks the final place of each port; the first argument
counts the rounds still to go, and the marks have 16 bits. -/
def markPorts : Nat → Nat → Nat → List GuidCounter → List SwitchportToNextGuid →
    Option (List SwitchportToNextGuid)
  | 0, _, _, _, ports => some ports
  | rounds + 1, sortIndex, j, gc, ports =>
    match nextAvailable gc gc.length j with
    | none => none
    | some j =>
      match gc[j]? with
      | none => none
      | some c =>
        markPorts rounds (sortIndex + 1) ((j + 1) % gc.length)
          (gc.set j { c with offset := c.offset + 1, count := c.count - 1 })
          (ports.modify c.offset fun e => { e with sortIndex := sortIndex % 0x10000 })

/-- The `while` loop of the second pass: swap until the right port is at `i`. -/
def swapInto : Nat → Nat → List SwitchportToNextGuid → Option (List SwitchportToNextGuid)
  | 0, _, _ => none
  | fuel + 1, i, ports =>
    match ports[i]? with
    | none => none
    | some e =>
      if e.sortIndex = i then some ports
      else
        match ports[e.sortIndex]? with
        | none => none
        | some e' => swapInto fuel i ((ports.set i e').set e.sortIndex e)

def swapPorts : List Nat → List SwitchportToNextGuid → Option (List SwitchportToNextGuid)
  | [], ports => some ports
  | i :: is, ports => (swapInto (ports.length + 1) i ports).bind (swapPorts is)

/-- `_guid_cycle_sort`; `none` if it does not end. -/
def guidCycleSort (ports : List SwitchportToNextGuid) (useSysGuid : Bool) :
    Option (List SwitchportToNextGuid) :=
  if ports.length ≤ 2 then some ports
  else
    let gc := countGuids useSysGuid ports
    let ports := ports.map fun e => { e with sortIndex := 0 }
    if gc.length ≤ 1 ∨ gc.length = ports.length then some ports
    else (markPorts ports.length 0 0 gc ports).bind (swapPorts (List.range ports.length))

def guidDescends (ports : List SwitchportToNextGuid) (i : Nat) : Bool :=
  match ports[i]?, ports[i + 1]? with
  | some e, some e' => e'.guid < e.guid
  | _, _ => false

/-- The loop body that sorts a run of ascending GUIDs once its end is reached; the
second part of the state is where the run began. -/
def sortRun (sort : List SwitchportToNextGuid → List SwitchportToNextGuid)
    (s : List SwitchportToNextGuid × Nat) (i : Nat) : List SwitchportToNextGuid × Nat :=
  if i + 1 = s.1.length ∨ guidDescends s.1 i then
    let rest := s.1.drop s.2
    (s.1.take s.2 ++ sort (rest.take (i - s.2 + 1)) ++ rest.drop (i - s.2 + 1), i + 1)
  else s

def balancePorts (qsort : Qsort SwitchportToNextGuid) (load : RouteLoad) (switchp : Node)
    (ports : List SwitchportToNextGuid) : Option (List SwitchportToNextGuid) :=
  if ports.length = 0 then some ports
  else if switchp.internalLinks then some (qsort.sort (compareLidsRouted load switchp) ports)
  else
    (guidCycleSort (qsort.sort (compareGuidsThenLidsRouted load switchp) ports) false).map
      fun ports => ((List.range ports.length).foldl
        (sortRun (qsort.sort (compareLidsRoutedThenGuids load switchp))) (ports, 0)).1

/-- What `sm_balance_base_lids` has found so far. -/
structure BaseLidState where
  j : Nat := 0
  bestLidsRouted : Nat := 0xffff
  bestSwLidsRouted : Nat := 0xffff

def balanceBaseLid (load : RouteLoad) (switchp : Node) (s : BaseLidState)
    (e : SwitchportToNextGuid × Nat) : BaseLidState :=
  let base := load.baseLidsRouted switchp.index e.1.portp.index
  let swBase := load.numBaseLidsRouted e.1.nextSwp.index
  if base < s.bestLidsRouted then ⟨e.2, base, swBase⟩
  else if base = s.bestLidsRouted ∧ swBase < s.bestSwLidsRouted then
    { s with j := e.2, bestSwLidsRouted := swBase }
  else s

def smBalanceBaseLids (load : RouteLoad) (switchp : Node) (ports : List SwitchportToNextGuid) :
    Nat :=
  (ports.zipIdx.foldl (balanceBaseLid load switchp) {}).j

/-!
## Forwarding entries

`sm_routing_func_setup_xft`: the ports by which a switch forwards the LIDs of a
destination, one for each of its `2^lmc` LIDs.
-/

inductive Status where
  | ok
  | bad
  deriving DecidableEq, Repr

/-- What `sm_routing_func_setup_xft` returns, fills in and counts. -/
structure XftResult where
  status : Status
  portnos : List Nat
  load : RouteLoad

def RouteLoad.route (load : RouteLoad) (switchp : Node) (e : SwitchportToNextGuid) (inc : Nat) :
    RouteLoad :=
  { load with
    lidsRouted := fun n p =>
      if n = switchp.index ∧ p = e.portp.index then (load.lidsRouted n p + inc) % 0x10000
      else load.lidsRouted n p
    numLidsRouted := fun n =>
      if n = e.nextSwp.index then (load.numLidsRouted n + inc) % 0x10000
      else load.numLidsRouted n }

def RouteLoad.routeBase (load : RouteLoad) (switchp : Node) (e : SwitchportToNextGuid) : RouteLoad :=
  { load with
    baseLidsRouted := fun n p =>
      if n = switchp.index ∧ p = e.portp.index then (load.baseLidsRouted n p + 1) % 0x10000
      else load.baseLidsRouted n p
    numBaseLidsRouted := fun n =>
      if n = e.nextSwp.index then (load.numBaseLidsRouted n + 1) % 0x10000
      else load.numBaseLidsRouted n }

def destinationSwitch (topop : Topology) (nodep : Node) (origPort : Port) : Option Nat :=
  if nodep.nodeType = .switch then some nodep.swIdx
  else (smFindNode topop origPort.nodeno).map Node.swIdx

def spreadLids (load : RouteLoad) (switchp : Node) (numLids inc : Nat)
    (ports : List SwitchportToNextGuid) : XftResult :=
  let ports := ports.take numLids
  let offset := smBalanceBaseLids load switchp ports
  let chosen := (List.range numLids).filterMap fun i => ports[(i + offset) % ports.length]?
  let load := chosen.foldl (fun load e => load.route switchp e inc) load
  { status := .ok
    portnos := chosen.map fun e => e.portp.index
    load := (ports[offset]?).elim load fun e => load.routeBase switchp e }

/-- `sm_routing_func_setup_xft` with `sm_routing_func_select_ports`; `none` if it does
not end. -/
def smRoutingFuncSetupXft (qsort : Qsort SwitchportToNextGuid) (topop : Topology)
    (path : Nat → Nat → Finset Nat) (doSpineCheck : Bool) (load : RouteLoad) (switchp nodep : Node)
    (orig : ValidPort) : Option XftResult :=
  let numLids := 2 ^ orig.data.lmc % 256
  let inc := if nodep.nodeType = .switch then 0 else 1
  let failed : XftResult := ⟨.bad, List.replicate numLids 0xff, load⟩
  match destinationSwitch topop nodep orig.port with
  | none => some failed
  | some j =>
    if j = switchp.swIdx then
      some ⟨.ok, List.replicate numLids (orig.port.portno.getD 0xff), load⟩
    else if orig.data.lmc = 0 then
      match smRoutingFuncSelectPorts topop path load doSpineCheck switchp j true with
      | [] => some failed
      | e :: _ =>
        some ⟨.ok, [e.portp.index],
          if e.portp.index ≠ 0xff ∧ nodep.nodeType ≠ .switch then load.route switchp e inc
          else load⟩
    else
      match smRoutingFuncSelectPorts topop path load doSpineCheck switchp j false with
      | [] => some failed
      | ports => (balancePorts qsort load switchp ports).map (spreadLids load switchp numLids inc)

end OpaFm.Routing
