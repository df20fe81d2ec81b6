import OpaFm.DorBiu.Closure
import OpaFm.Dor.ScScMap
import Mathlib.Data.Fin.VecNotation

/-!
# Routing through communication nodes

In the third routing module the first three dimensions make up the switches of one Si.  Some of
them are communication nodes, whose BIU links serve the other ones of their Si.
-/

namespace OpaFm.DorBiu

open OpaFm.Dor

/-! ## Communication nodes -/

/-- A row of `communication_node_map`: the digits of the coordinates of a switch as a key, and
the coordinates of its communication node. -/
structure ComEntry where
  key : Int
  com : Fin 3 → Int

private def row (key a b c : Int) : ComEntry := ⟨key, ![a, b, c]⟩

/-- The row of the map for `numBiuInSi`, from 0. -/
def comIndex (numBiuInSi : Nat) : Option Nat :=
  if numBiuInSi = 6 then some 4
  else if numBiuInSi = 12 then some 5
  else if 0 < numBiuInSi ∧ numBiuInSi ≤ 4 then some (numBiuInSi - 1)
  else none

section

variable {n D : Nat} (top : DorTopology n D)

def sameSi (x y : Fin n) : Bool :=
  (List.finRange D).all fun i =>
    i.val < 3 || (top.coords x i - top.coords y i).tmod (top.dimensionLength i) = 0

end

/-! ## Port groups -/

/-- A complete torus of more than three dimensions, the first ones of which make up a Si, with
`dimensionbiu` of its configuration.  A BIU link connects two switches. -/
structure DorBiuSiFabric (n m : Nat) extends DorBiuFabric n (m + 4) where
  numBiuInSi : Nat
  biuPort : Nat
  toroidal_all : ∀ i, toroidal i = true
  length_zero : dimensionLength 0 = 2
  length_one : dimensionLength 1 = 3
  length_two : dimensionLength 2 = 2
  numBiuInSi_admitted : (comIndex numBiuInSi).isSome = true
  brother_ne : ∀ x, brother x ≠ some x

namespace DorBiuSiFabric

variable {n m : Nat} (F : DorBiuSiFabric n m)

/-- The hops from the communication node to the destination, `none` where no route is known. -/
def comm2dest (cl : DorBiuClosure n) (c d : Fin n) : Option Nat :=
  if c = d then some 0
  else if cl.dorBiuClosure c d then some ((cl.hopCount c d).getD 0)
  else none

/-- The ports on the way over the BIU link of the destination's communication node; inside,
`none` where the way to the destination in dimension order is taken. -/
def getBiuPortGroup (comNode : Fin n → Option (Fin n)) (cl : DorBiuClosure n) (x d : Fin n) :
    Option (Option (List Nat)) :=
  match comNode d with
  | none => some none
  | some c =>
    match comm2dest cl c d, F.brother c with
    | some comm2dest, some b =>
      if b = x ∧ F.brother x = some c then some (some (F.addPorts x c))
      else if cl.dorBiuClosure x b then
        match cl.hopCount x b, cl.hopCount x d with
        | some first, some second =>
          if first + comm2dest < second then (F.addPortsTowards cl x b).map some
          else some none
        | _, _ => none
      else some none
    | _, _ => some none

def preferBiu (ports : List Nat) : List Nat :=
  if 1 < ports.length ∧ F.biuPort ∈ ports then [F.biuPort] else ports

/-- `_get_dor_port_group`, before the ports are sorted by their load; `none` is the access
through a null pointer. -/
def getDorPortGroup (comNode : Fin n → Option (Fin n)) (cl : DorBiuClosure n) (x d : Fin n) :
    Option (List Nat) :=
  match F.getBiuPortGroup comNode cl x d with
  | none => none
  | some (some ports) => some (F.preferBiu ports)
  | some none => (F.addPortsTowards cl x d).map F.preferBiu

/-- `_get_port_group`; `alternatePath` gives the ports of `_get_alternate_path_port_group`. -/
def getPortGroup (alternatePath : Fin n → Fin n → List Nat) (comNode : Fin n → Option (Fin n))
    (cl : DorBiuClosure n) (x d : Fin n) : Option (List Nat) :=
  if cl.dorBiuClosure x d then F.getDorPortGroup comNode cl x d else some (alternatePath x d)

/-- A hop on the way to `d` of what has not arrived there. -/
def Hop (alternatePath : Fin n → Fin n → List Nat) (comNode : Fin n → Option (Fin n))
    (cl : DorBiuClosure n) (d x y : Fin n) : Prop :=
  x ≠ d ∧ F.PortTo (F.getPortGroup alternatePath comNode cl x d) x y

/-- A switch on the route from a communication node to a switch of its Si, where every dimension
takes one hop at most: the dimensions up to `i` are settled. -/
def RouteUpTo (c d : Fin n) (i : Nat) (x : Fin n) : Prop :=
  (∀ k : Fin (m + 4), k.val < i → F.coords x k = F.coords d k) ∧
    ∀ k : Fin (m + 4), i ≤ k.val → F.coords x k = F.coords c k

def OnSiRoute (c d x : Fin n) : Prop := ∃ i : Fin (m + 5), F.RouteUpTo c d i x

instance (c d : Fin n) (i : Nat) (x : Fin n) : Decidable (F.RouteUpTo c d i x) :=
  inferInstanceAs (Decidable (_ ∧ _))

instance (c d x : Fin n) : Decidable (F.OnSiRoute c d x) :=
  inferInstanceAs (Decidable (∃ _, _))

end DorBiuSiFabric

/-!
## SC to SC maps with BIU links

`_generate_scsc_map` of the third routing module, and of the second one: next to the turns of the
dimensions there are maps for the turns onto a BIU link and off it.
-/

open OpaFm.Dor OpaFm.Dor.DorSwitch

variable {n D : Nat} (sw : DorSwitch n) (c : SmDorRouting D) (q : ScTables) (force : Bool)
  (biuPort : Nat)

/-- One block for the pairs of ports whose old map is not `old`. -/
def setBlocks (old m : ScscMap) (ingress egress : Nat → Bool) : List ScscMultiset :=
  let pairs := (sw.physicalPorts.filter ingress).flatMap fun p1 =>
    ((sw.physicalPorts.filter egress).filter (sw.needsSet force old p1)).map fun p2 => (p1, p2)
  if pairs = [] then []
  else
    [{ ingressPortMask := pairs.map Prod.fst
       egressPortMask := pairs.map Prod.snd
       scscMap := m }]

def isBiuLink (p : Nat) : Bool :=
  decide (p = biuPort) && decide ((sw.port p).link.map Prod.snd = some biuPort)

/-- From the other inter-switch links to the BIU link: to the second SC.  The old map is compared
with `scsc0`. -/
def toBiuBlocks : List ScscMultiset :=
  setBlocks sw force (q.scsc0 c.routingSCs) (q.scscPlus1 c.routingSCs)
    (fun p => sw.usable p && (sw.port p).isIsl && decide (p ≠ biuPort))
    fun p => (sw.port p).valid && (sw.port p).isIsl && isBiuLink sw biuPort p

def fromBiuBlocks : List ScscMultiset :=
  setBlocks sw force (q.scsc0 c.routingSCs) q.scscNoChg
    (fun p => sw.usable p && (sw.port p).isIsl && decide (p = biuPort))
    fun p => (sw.port p).valid && (sw.port p).isIsl

/-- `_generate_scsc_map`, on a sweep in which the ports of the switches changed. -/
def generateSiScscMap (datelineSwitch : Fin D → Bool) : List ScscMultiset :=
  sw.hostBlocks c q force ++
    if c.routingSCs = 1 then []
    else
      sw.islToHostBlocks c q force ++
        (toBiuBlocks sw c q force biuPort ++
          (fromBiuBlocks sw c q force biuPort ++
            (List.finRange D).flatMap (sw.dimensionBlocks c q force datelineSwitch)))

/-! ### The second module -/

/-- From all ports to the BIU link: no change.  The old map is compared with `scsc0`. -/
def allToBiuBlocks : List ScscMultiset :=
  setBlocks sw force (q.scsc0 c.routingSCs) q.scscNoChg (fun p => sw.usable p)
    fun p => (sw.port p).valid && (sw.port p).isIsl && isBiuLink sw biuPort p

/-- `_generate_scsc_map` of the second module. -/
def generateBiuScscMap (datelineSwitch : Fin D → Bool) : List ScscMultiset :=
  sw.hostBlocks c q force ++
    if c.routingSCs = 1 then []
    else
      sw.islToHostBlocks c q force ++
        (allToBiuBlocks sw c q force biuPort ++
          (List.finRange D).flatMap (sw.dimensionBlocks c q force datelineSwitch))

end OpaFm.DorBiu
