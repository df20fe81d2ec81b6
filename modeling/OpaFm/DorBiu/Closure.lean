import OpaFm.Dor.Closure
import OpaFm.Dor.ScScMap

/-!
# Closure with hop counts

With cables between pairs of switches that shorten the ways (BIU links), the maps of the
closure keep the number of hops of a route in place of a bit.
-/

namespace OpaFm.DorBiu

open OpaFm.Dor

/-- The maps `dorLeft`, `dorRight` and `dorBroken`; `none` is `DEFAULT_IJ_BITMAP`. -/
structure DorBiuClosure (n : Nat) where
  dorLeft : Fin n → Fin n → Option Nat
  dorRight : Fin n → Fin n → Option Nat
  dorBroken : Fin n → Fin n → Option Nat

def ijBiuSet {n : Nat} (ijBitmap : Fin n → Fin n → Option Nat) (i j : Fin n) (value : Nat) :
    Fin n → Fin n → Option Nat :=
  Function.update ijBitmap i (Function.update (ijBitmap i) j (some value))

namespace DorBiuClosure

variable {n : Nat} (cl : DorBiuClosure n)

def empty (n : Nat) : DorBiuClosure n where
  dorLeft := fun _ _ => none
  dorRight := fun _ _ => none
  dorBroken := fun _ _ => none

def steps : Way → Fin n → Fin n → Option Nat
  | .left => cl.dorLeft
  | .right => cl.dorRight

def set (i j : Fin n) (value : Nat) : Way → DorBiuClosure n
  | .left => { cl with dorLeft := ijBiuSet cl.dorLeft i j value }
  | .right => { cl with dorRight := ijBiuSet cl.dorRight i j value }

def setBroken (i j : Fin n) : DorBiuClosure n :=
  { cl with dorBroken := ijBiuSet cl.dorBroken i j 1 }

def routed (i j : Fin n) : Bool := (cl.dorLeft i j).isSome || (cl.dorRight i j).isSome

def dorBiuClosure (i j : Fin n) : Bool := i = j || cl.routed i j

def beenHere (i j : Fin n) : Option Nat :=
  match cl.dorLeft i j, cl.dorRight i j with
  | some l, some r => some (if l < r then l else r)
  | some l, none => some l
  | none, some r => some r
  | none, none => none

def hopCount (i j : Fin n) : Option Nat :=
  match cl.dorRight i j with
  | some r => some r
  | none => cl.dorLeft i j

end DorBiuClosure

/-! ## The walk -/

section Walk

variable {n D : Nat} (top : DorTopology n D)

/-- A walk to one destination; `none` is the access through a missing neighbour pointer. -/
abbrev BiuWalk (n : Nat) := DorBiuClosure n → Fin n → DorDirection → Option (DorBiuClosure n × Nat)

/-- The attempt to go one way, and where `longer` the other way after it.  The neighbour is
followed before its pointer is tested. -/
def tryWay (walk : BiuWalk n) (i : Fin D) (src dst : Fin n) (longer : Bool) (w : Way)
    (cl : DorBiuClosure n) : Option (DorBiuClosure n × Nat) :=
  match top.neighbor w src i with
  | none => none
  | some x => do
      let (cl, step) ← walk cl x (if top.coords x i = top.coords dst i then .any else w.direction)
      if x = dst ∨ step ≠ 0 then some (cl.set src dst step w, step)
      else if longer then
        match top.neighbor w.other src i with
        | none => some (cl, step)
        | some y => do
            let (cl, step) ← walk cl y w.other.direction
            some (if step ≠ 0 then cl.set src dst step w.other else cl, step)
      else some (cl, step)

/-- The attempt of one way, if the direction of the walk lets it go there; `step` is what the
attempt before it has left. -/
def attempt (walk : BiuWalk n) (i : Fin D) (src dst : Fin n) (dir : DorDirection) (w : Way)
    (cl : DorBiuClosure n) (step : Nat) : Option (DorBiuClosure n × Nat) :=
  let go := top.goes i dir (top.coords src i) (top.coords dst i)
  if go w then tryWay top walk i src dst (decide (dir = .any) && !go w.other) w cl
  else some (cl, step)

/-- `_is_path_realizable`: one more than the hops that are left, 0 where there is no path;
`fuel` bounds the depth of the recursion. -/
def isPathRealizable : Nat → DorBiuClosure n → Fin n → Fin n → DorDirection →
    Option (DorBiuClosure n × Nat)
  | 0, _, _, _, _ => none
  | fuel + 1, cl, src, dst, dir =>
    if src = dst then some (cl, 1)
    else
      match cl.beenHere src dst with
      | some step => some (cl, step + 1)
      | none =>
        if (cl.dorBroken src dst).isSome then some (cl, 0)
        else
          match top.firstDifference src dst with
          | none => some (cl.setBroken src dst, 0)
          | some i => do
              let walk := fun cl x dir => isPathRealizable fuel cl x dst dir
              let (cl, step) ← attempt top walk i src dst dir .right cl 0
              let (cl, step) ← attempt top walk i src dst dir .left cl step
              if cl.routed src dst then some (cl, step + 1)
              else some (cl.setBroken src dst, 0)

/-- `_calc_dor_closure`, for the switches in the order of the topology's list. -/
def calcDorClosure (switches : List (Fin n)) : Option (DorBiuClosure n) :=
  (switches.flatMap fun ni => switches.map fun nj => (ni, nj)).foldlM
    (fun cl p =>
      if p.1 = p.2 then some cl
      else (isPathRealizable top top.walkFuel cl p.1 p.2 .any).map Prod.fst)
    (DorBiuClosure.empty n)

end Walk

/-! ## Fabrics with BIU links -/

/-- A complete mesh or torus, some of whose switches are paired by BIU links.  Along a dimension
with more than one switch no neighbour is missing but at the ends of a mesh. -/
structure DorBiuFabric (n D : Nat) extends DorFabric n D where
  switches : List (Fin n)
  brother : Fin n → Option (Fin n)
  switch : Fin n → DorSwitch n
  mem_switches : ∀ x, x ∈ switches
  brother_symm : ∀ x y, brother x = some y → brother y = some x
  left_isSome : ∀ x i, 1 < dimensionLength i →
    (toroidal i = false → coords x i ≠ toDorTopology.coordMinimum i) → (left x i).isSome = true
  right_isSome : ∀ x i, 1 < dimensionLength i →
    (toroidal i = false → coords x i ≠ toDorTopology.coordMaximum i) → (right x i).isSome = true
  cabled : ∀ x y, ((∃ i, left x i = some y ∨ right x i = some y) ∨ brother x = some y) →
    ∃ p ∈ (switch x).physicalPorts, (switch x).usable p = true ∧
      ((switch x).port p).link.map Prod.fst = some y

namespace DorBiuFabric

variable {n D : Nat} (F : DorBiuFabric n D)

/-- `_add_ports`: the ports of a switch to a neighbour. -/
def addPorts (x y : Fin n) : List Nat :=
  (F.switch x).physicalPorts.filter fun p =>
    (F.switch x).usable p && decide (((F.switch x).port p).link.map Prod.fst = some y)

/-- The ports to the neighbour by a way that is set for the destination; `none` is the access
through a missing neighbour pointer. -/
def addPortsBy (cl : DorBiuClosure n) (x d : Fin n) (i : Fin D) (w : Way) : Option (List Nat) :=
  if (cl.steps w x d).isSome then (F.neighbor w x i).map (F.addPorts x) else some []

def addPortsTowards (cl : DorBiuClosure n) (x d : Fin n) : Option (List Nat) :=
  match F.routingDimension x d with
  | none => some []
  | some i => do
      let left ← F.addPortsBy cl x d i .left
      let right ← F.addPortsBy cl x d i .right
      some (left ++ right)

def PortTo (group : Option (List Nat)) (x y : Fin n) : Prop :=
  ∃ ports p, group = some ports ∧ p ∈ ports ∧ ((F.switch x).port p).link.map Prod.fst = some y

end DorBiuFabric

/-! ## BIU shortcuts -/

def defaultIjBitmap : BitVec 32 := 0xffffffff

/-- What is read by words where `topop->cost`, with entries of half a word, and `topop->path`
begin.  In `Topology_t` they have the places of `dorLeft` and `dorRight` in `DorTopology_t`. -/
structure TopologyMatrices where
  cost : Nat → BitVec 16
  path : Nat → BitVec 32

def TopologyMatrices.dorBiuClosure {n : Nat} (topop : TopologyMatrices) (i j : Fin n) : Bool :=
  let ij := i.val * n + j.val
  i = j || topop.cost (2 * ij + 1) ++ topop.cost (2 * ij) != defaultIjBitmap ||
    topop.path ij != defaultIjBitmap

inductive ClosureData
  | dorTop
  | topop

/-- The ports of a group, before they are sorted by their load, and the closure tests that were
made; `none` is the access through a null pointer. -/
structure PortGroup where
  tests : List ClosureData
  ports : Option (List Nat)

namespace DorBiuFabric

variable {n D : Nat} (F : DorBiuFabric n D)

def getDorPortGroup (topop : TopologyMatrices) (cl : DorBiuClosure n) (x d : Fin n) : PortGroup :=
  match F.brother d with
  | none => ⟨[], F.addPortsTowards cl x d⟩
  | some b =>
    if b = x ∧ F.brother x = some d then ⟨[], some (F.addPorts x d)⟩
    else if topop.dorBiuClosure x b then
      ⟨[.topop], do
        let first ← cl.hopCount x b
        let second ← cl.hopCount x d
        if first < second then F.addPortsTowards cl x b else F.addPortsTowards cl x d⟩
    else ⟨[.topop], F.addPortsTowards cl x d⟩

/-- `_get_port_group`; `alternatePath` gives the ports of `_get_alternate_path_port_group`. -/
def getPortGroup (alternatePath : Fin n → Fin n → List Nat) (topop : TopologyMatrices)
    (cl : DorBiuClosure n) (x d : Fin n) : PortGroup :=
  if cl.dorBiuClosure x d then
    let group := F.getDorPortGroup topop cl x d
    { group with tests := .dorTop :: group.tests }
  else ⟨[.dorTop], some (alternatePath x d)⟩

/-- A hop on the way to `d` of what has not arrived there. -/
def Hop (alternatePath : Fin n → Fin n → List Nat) (topop : TopologyMatrices)
    (cl : DorBiuClosure n) (d x y : Fin n) : Prop :=
  x ≠ d ∧ F.PortTo (F.getPortGroup alternatePath topop cl x d).ports x y

end DorBiuFabric

/-!
## The copy of the closure

A sweep that finds no change of a cost copies the maps of the old topology.  They are words in
allocations whose sizes are counted in bytes.
-/

/-- The maps of `DorTopology_t` as they are allocated; `none` is a null pointer. -/
structure ClosureMaps where
  closureMaxSws : BitVec 32
  dorLeft : Option (List (BitVec 8))
  dorRight : Option (List (BitVec 8))
  dorBroken : Option (List (BitVec 8))

def dorBitMapsIndex (closureMaxSws x y : BitVec 32) : Int := (x * closureMaxSws + y).toInt

/-- The word of a map at an index, its bytes with the lowest first; `none` is an access outside of
the allocation. -/
def wordAt (bytes : List (BitVec 8)) (ij : Int) : Option (BitVec 32) :=
  if 0 ≤ ij ∧ 4 * ij + 4 ≤ bytes.length then
    let byte := fun k => bytes.getD (4 * ij.toNat + k) 0
    some (byte 3 ++ byte 2 ++ byte 1 ++ byte 0)
  else none

def ijBiuGet (ijBitmap : Option (List (BitVec 8))) (ij : Int) : Option (BitVec 32) :=
  ijBitmap.bind fun bytes => wordAt bytes ij

def ijBiuTest (ijBitmap : Option (List (BitVec 8))) (ij : Int) : Option Bool :=
  (ijBiuGet ijBitmap ij).map fun word => decide (word ≠ defaultIjBitmap)

def ClosureMaps.dorBiuClosure (m : ClosureMaps) (i j : BitVec 32) : Option Bool :=
  let ij := dorBitMapsIndex m.closureMaxSws i j
  if i = j then some true
  else do
    let left ← ijBiuTest m.dorLeft ij
    if left then some true else ijBiuTest m.dorRight ij

/-- The size that `_copy_dor_closure` allocates. -/
def copySize (maxSws : BitVec 32) : BitVec 64 :=
  4 * maxSws.setWidth 64 * maxSws.setWidth 64 / 32 + 1

/-- Which of the allocations succeed. -/
structure ClosureMem where
  left : Bool
  right : Bool
  broken : Bool

/-- `_copy_dor_closure`, and whether it returns `VSTATUS_OK`. -/
def copyDorClosure (mem : ClosureMem) (src dst : ClosureMaps) : ClosureMaps × Bool :=
  let copied := fun bytes : Option (List (BitVec 8)) =>
    bytes.map (List.take (copySize src.closureMaxSws).toNat)
  let dst := { dst with closureMaxSws := src.closureMaxSws }
  if !mem.left then (dst, false)
  else
    let dst := { dst with dorLeft := copied src.dorLeft }
    if !mem.right then (dst, false)
    else
      let dst := { dst with dorRight := copied src.dorRight }
      if !mem.broken then (dst, false)
      else ({ dst with dorBroken := copied src.dorBroken }, true)

/-- `_post_process_routing`; `calcClosure` stands for the computation of the closure.  The status
of the copy is not looked at. -/
def postProcessRouting (mem : ClosureMem) (topologyCostPathChanges : Bool) (maxSws : BitVec 32)
    (calcClosure : ClosureMaps → ClosureMaps × Bool) (old dst : ClosureMaps) : ClosureMaps × Bool :=
  let dst := { dst with closureMaxSws := maxSws }
  if maxSws = 0 then (dst, true)
  else if topologyCostPathChanges then calcClosure dst
  else ((copyDorClosure mem old dst).1, true)

end OpaFm.DorBiu
