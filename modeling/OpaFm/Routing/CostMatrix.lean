import OpaFm.Fabric.Topology

/-!
# Cost and path matrices

`sm_routing_func_init_cost_matrix_floyds` and the loops of
`sm_routing_func_calc_cost_matrix_floyds`, which relax both matrices in place.
Each pair is relaxed once a round, in both directions.
-/

namespace OpaFm.Routing

open OpaFm.Fabric

def costInfinity : Nat := 32767

def maxStlPorts : Nat := 64

/-- `topop->cost` and `topop->path`, by the indices of two switches.  A path entry is
a mask of the ports 1 to 64. -/
structure CostMatrix where
  cost : Nat → Nat → Nat
  path : Nat → Nat → Finset Nat

def setEntry {α : Type} (f : Nat → Nat → α) (i j : Nat) (a : α) : Nat → Nat → α :=
  fun x y => if x = i ∧ y = j then a else f x y

/-! ## Initial values -/

def neighborSwitch (topop : Topology) (portp : Port) : Option Node :=
  if portp.state.isUp then
    (smFindNode topop portp.nodeno).filter fun n => n.nodeType = .switch
  else none

def maskLink (path : Nat → Nat → Finset Nat) (i k : Nat) (portp : Port) : Nat → Nat → Finset Nat :=
  let path := setEntry path i k (insert portp.index (path i k))
  match portp.portno with
  | none => path
  | some portno => setEntry path k i (insert portno (path k i))

def initPort (topop : Topology) (nodep : Node) (s : CostMatrix) (portp : Port) : CostMatrix :=
  match portp.portData, neighborSwitch topop portp with
  | some portData, some neighborNodep =>
    let i := nodep.swIdx
    let k := neighborNodep.swIdx
    let cost := smGetCost portData
    { cost := setEntry (setEntry s.cost k i cost) i k cost
      path := maskLink s.path i k portp }
  | _, _ => s

def initSwitch (topop : Topology) (s : CostMatrix) (nodep : Node) : CostMatrix :=
  (physicalPorts nodep).foldl (initPort topop nodep) s

/-- `sm_routing_func_init_cost_matrix_floyds`, over cleared masks. -/
def smRoutingFuncInitCostMatrixFloyds (topop : Topology) : CostMatrix :=
  let s := topop.switches.foldl (initSwitch topop)
    { cost := fun _ _ => costInfinity, path := fun _ _ => ∅ }
  { s with cost := fun i j => if i = j ∧ i < topop.maxSws then 0 else s.cost i j }

/-! ## Relaxation -/

def relaxPair (k i : Nat) (s : CostMatrix) (j : Nat) : CostMatrix :=
  let value := (s.cost i k + s.cost k j) % 0x10000
  if value < s.cost i j then
    let path := setEntry s.path i j (s.path i k)
    { cost := setEntry (setEntry s.cost i j value) j i value
      path := setEntry path j i (path j k) }
  else if value = s.cost i j then
    let path := setEntry s.path i j (s.path i j ∪ s.path i k)
    { s with path := setEntry path j i (path j i ∪ path j k) }
  else s

def relaxRow (switches k : Nat) (s : CostMatrix) (i : Nat) : CostMatrix :=
  if s.cost i k = costInfinity then s
  else (List.range' (i + 1) (switches - (i + 1))).foldl (relaxPair k i) s

def relaxRound (switches : Nat) (s : CostMatrix) (k : Nat) : CostMatrix :=
  (List.range switches).foldl (relaxRow switches k) s

/-- The loops of `sm_routing_func_calc_cost_matrix_floyds`. -/
def smRoutingFuncCalcCostMatrixFloyds (switches : Nat) (s : CostMatrix) : CostMatrix :=
  (List.range switches).foldl (relaxRound switches) s

end OpaFm.Routing
