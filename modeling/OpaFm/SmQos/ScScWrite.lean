import OpaFm.Cs.Bitset
import OpaFm.Partition.VirtualFabric
import OpaFm.SmQos.Vls
import Mathlib.Data.Finset.Card

/-!
# Writing SC to SC tables

`WriteGen1SCSC` turns the port masks of a multiset block into requests.  A request names a range of
ingress ports and one of egress ports, of which at least one is a single port or reaches to the
last port.
-/

namespace OpaFm.SmQos

def maxStlPorts : Nat := 64

def stlNumScscBlocksPerLidSmp : Nat := 2016 / 32

/-- `STL_SCSC_MULTISET`, over the ports of a switch, whose number is a `uint8`. -/
structure ScscMultiset (numPorts : Nat) where
  ingressPortMask : Finset Nat
  egressPortMask : Finset Nat
  scscMap : Nat → Nat := id
  num_ports : numPorts ≤ 0xff
  ingress_ports : ∀ p ∈ ingressPortMask, 1 ≤ p ∧ p ≤ numPorts
  egress_ports : ∀ p ∈ egressPortMask, 1 ≤ p ∧ p ≤ numPorts

/-- `StlGetFirstPortInPortMask`, which looks no further than `MAX_STL_PORTS`. -/
def stlGetFirstPortInPortMask (mask : Finset Nat) : Nat :=
  ((List.range (maxStlPorts + 1)).find? (· ∈ mask)).getD 0xff

def stlNumPortsSetInPortMask (mask : Finset Nat) (totalPorts : Nat) : Nat :=
  (mask.filter (· ≤ totalPorts)).card

/-! ## Runs of ports -/

/-- The loop that extends a run down from the last port, with the variable for its start. -/
def extendDown : List Nat → Nat → Finset Nat → Nat × Finset Nat
  | [], start, mask => (start, mask)
  | i :: rest, start, mask =>
    if i ∈ mask then extendDown rest i (mask.erase i) else (start, mask)

def lastRun (numPorts start : Nat) (mask : Finset Nat) : Nat × Finset Nat :=
  extendDown (List.range' 1 (numPorts - 1)).reverse start (mask.erase numPorts)

def extendUp (maxBlocks : Nat) : List Nat → Nat → Finset Nat → Nat × Finset Nat
  | [], numBlocks, mask => (numBlocks, mask)
  | i :: rest, numBlocks, mask =>
    if maxBlocks < numBlocks + 1 ∨ i ∉ mask then (numBlocks, mask)
    else extendUp maxBlocks rest (numBlocks + 1) (mask.erase i)

def firstRun (maxBlocks numPorts : Nat) (mask : Finset Nat) : Nat × Nat × Finset Nat :=
  let start := stlGetFirstPortInPortMask mask
  let r := extendUp maxBlocks (List.range' (start + 1) (numPorts - start)) 1 (mask.erase start)
  (start, r.1, r.2)

/-! ## Requests -/

/-- The egress ports of some requests; `allEgress` is B=1 of the attribute modifier. -/
structure EgressRange where
  allEgress : Bool
  egress : Nat
  lastEgress : Nat
  numBlocks : Nat

/-- One request, with the ports that the FM takes to be set by it.  `allIngress` is A=1. -/
structure ScscSet where
  allIngress : Bool
  allEgress : Bool
  numBlocks : Nat
  ingress : Nat
  lastIngress : Nat
  egress : Nat
  lastEgress : Nat
  scscMap : Nat → Nat

def ingressLoop (numPorts : Nat) (scscMap : Nat → Nat) (e : EgressRange) :
    Nat → Finset Nat → Option (List ScscSet)
  | 0, _ => none
  | fuel + 1, mask =>
    if stlNumPortsSetInPortMask mask numPorts = 0 then some []
    else if numPorts ∈ mask then
      let r := lastRun numPorts numPorts mask
      (ingressLoop numPorts scscMap e fuel r.2).map fun sets =>
        { allIngress := true
          allEgress := e.allEgress
          numBlocks := if e.allEgress then 1 else e.numBlocks
          ingress := r.1
          lastIngress := numPorts
          egress := e.egress
          lastEgress := e.lastEgress
          scscMap := scscMap } :: sets
    else if e.allEgress then
      let r := firstRun stlNumScscBlocksPerLidSmp numPorts mask
      (ingressLoop numPorts scscMap e fuel r.2.2).map fun sets =>
        { allIngress := false
          allEgress := true
          numBlocks := r.2.1
          ingress := r.1
          lastIngress := r.1 + r.2.1 - 1
          egress := e.egress
          lastEgress := e.lastEgress
          scscMap := scscMap } :: sets
    else
      let ingress := stlGetFirstPortInPortMask mask
      (ingressLoop numPorts scscMap e fuel (mask.erase ingress)).map fun sets =>
        { allIngress := false
          allEgress := false
          numBlocks := e.numBlocks
          ingress := ingress
          lastIngress := ingress
          egress := e.egress
          lastEgress := e.lastEgress
          scscMap := scscMap } :: sets

/-- The next range of egress ports.  A run up to the last port leaves `egress` as it was if it has
no other port. -/
def nextEgress (numPorts egress : Nat) (mask : Finset Nat) : EgressRange × Finset Nat :=
  if numPorts ∈ mask then
    let r := lastRun numPorts egress mask
    (⟨true, r.1, numPorts, 0⟩, r.2)
  else
    let r := firstRun stlNumScscBlocksPerLidSmp numPorts mask
    (⟨false, r.1, r.1 + r.2.1 - 1, r.2.1⟩, r.2.2)

/-- The loop over the egress ports: the requests and the last value of `egress`. -/
def egressLoop {numPorts : Nat} (b : ScscMultiset numPorts) (ingressFuel : Nat) :
    Nat → Nat → Finset Nat → Option (List ScscSet × Nat)
  | 0, _, _ => none
  | fuel + 1, egress, mask =>
    if stlNumPortsSetInPortMask mask numPorts = 0 then some ([], egress)
    else
      let e := nextEgress numPorts egress mask
      (ingressLoop numPorts b.scscMap e.1 ingressFuel b.ingressPortMask).bind fun sets =>
        (egressLoop b ingressFuel fuel e.1.egress e.2).map fun r => (sets ++ r.1, r.2)

/-- `WriteGen1SCSC`, where the switch accepts all requests: those for each block. -/
def writeGen1SCSC {numPorts : Nat} (fuel : Nat) :
    List (ScscMultiset numPorts) → Nat → Option (List (List ScscSet))
  | [], _ => some []
  | b :: blocks, egress =>
    (egressLoop b fuel fuel egress b.egressPortMask).bind fun r =>
      (writeGen1SCSC fuel blocks r.2).map fun sets => r.1 :: sets

/-!
## Assigning SCs to SLs

`PopulateSCtoSL` gives to each SL of the virtual fabrics a run of SCs that are mapped to a run of
free VLs.  A VL is taken out of the bit set of free VLs once it is given to an SL, and also where
a search does not find an SC for it.
-/

open OpaFm.Cs OpaFm.Partition

/-- What `PopulateSCtoSL` reads.  `activeVLs` counts VLs of 5 bits, every routing module needs
some SCs, and the SLs of all virtual fabrics have been assigned. -/
structure ScSlInput where
  scvl : Nat → Nat
  activeVLs : Nat
  numRoutingScs : Nat → Bool → Nat
  vFabricAll : List VF
  active_pos : 0 < activeVLs
  active_le : activeVLs ≤ stlMaxVls
  scs_pos : ∀ sl mcSl, 0 < numRoutingScs sl mcSl
  sls_lt : ∀ vfp ∈ vFabricAll,
    vfp.baseSl < stlMaxSls ∧ vfp.respSl < stlMaxSls ∧ vfp.mcastSl < stlMaxSls

/-- An SL as it is met, and whether as a multicast SL. -/
structure SlUse where
  sl : Nat
  mcSl : Bool
  deriving DecidableEq, Repr

structure ScSlState where
  mappedSLs : Bitset
  freeVLs : Bitset
  slToSc : Nat → Nat
  scToSl : Nat → Nat

/-! ### One search -/

def lowestSc (scvl : Nat → Nat) (numSCs vl : Nat) : Nat :=
  ((List.range (stlMaxScs + 1 - numSCs)).find? fun sc => scvl sc = vl).getD
    (stlMaxScs + 1 - numSCs)

section

variable (x : ScSlInput)

end

end OpaFm.SmQos
