import OpaFm.Dor.Closure
import Mathlib.Data.List.FinRange

/-!
# SC to SC maps

`_generate_scsc_map` computes for one switch which service channel a packet leaves on, by the
ports it comes in and goes out through, as blocks of ingress ports, egress ports and one map.
-/

namespace OpaFm.Dor

/-! ## Configuration -/

inductive DorTopologyKind where
  | mesh
  | torus
  | partialTorus
  deriving DecidableEq, Repr

/-- The fields of `SmDorRouting_t` that the maps are made from; the pairs of ports that a cable
may connect, by dimension. -/
structure SmDorRouting (D : Nat) where
  topology : DorTopologyKind
  routingSCs : Nat
  portPair : Fin D → List (Nat × Nat)

namespace SmDorRouting

variable {D : Nat} (c : SmDorRouting D)

def getConfiguredDimensionForPort (p : Nat) : Option (Fin D) :=
  Fin.find? fun i => (c.portPair i).any fun pair => p = pair.1 || p = pair.2

/-- On which side of its pair a port is; -1 as an unsigned byte where there is none. -/
def getConfiguredPortPosInDim (i : Fin D) (p : Nat) : Nat :=
  match (c.portPair i).find? fun pair => p = pair.1 || p = pair.2 with
  | some pair => if p = pair.1 then 1 else 2
  | none => 255

end SmDorRouting

/-! ## Maps for the service levels -/

abbrev ScscMap := Fin 32 → Fin 32

/-- `sm_SLtoSC`, `sm_SCtoSL` (0xff where the SC is free) and the service levels of the virtual
fabrics, each of which has been given its SC. -/
structure ScTables where
  slToSC : Fin 32 → Fin 32
  scToSL : Fin 32 → Option (Fin 32)
  linkSLsInuse : Fin 32 → Bool
  scToSL_slToSC : ∀ sl, linkSLsInuse sl = true → scToSL (slToSC sl) = some sl

namespace ScTables

variable (q : ScTables)

def scsAfter (first : Fin 32) : List (Fin 32) := (List.finRange 32).filter (first < ·)

def scscNoChg : ScscMap := fun i =>
  match q.scToSL i with
  | some sl => if q.linkSLsInuse sl then i else 15
  | none => 15

/-- The loop that puts the SCs of a service level into pairs, for `scsc0` and `scscPlus1`. -/
def pairSCs (routingSCs : Nat) (sl : Fin 32) :
    List (Fin 32) → Option (Fin 32) → Nat → ScscMap × ScscMap → ScscMap × ScscMap
  | [], _, _, maps => maps
  | j :: js, firstSC, setsComplete, maps =>
    if q.scToSL j ≠ some sl then pairSCs routingSCs sl js firstSC setsComplete maps
    else
      match firstSC with
      | none => pairSCs routingSCs sl js (some j) setsComplete maps
      | some first =>
        let maps := (Function.update (Function.update maps.1 j first) first first,
          Function.update (Function.update maps.2 j j) first j)
        if setsComplete + 1 = 1 ∧ routingSCs = 2 ∨ setsComplete + 1 = 2 ∧ routingSCs = 4 then maps
        else pairSCs routingSCs sl js none (setsComplete + 1) maps

def routingMaps (routingSCs : Nat) : ScscMap × ScscMap :=
  if routingSCs > 1 then
    (List.finRange 32).foldl
      (fun maps i =>
        if q.linkSLsInuse i then
          let first := q.slToSC i
          q.pairSCs routingSCs i (scsAfter first) (some first) 0
            (Function.update maps.1 first first, Function.update maps.2 first first)
        else maps)
      (fun _ => 15, fun _ => 15)
  else (fun _ => 15, fun _ => 15)

def scsc0 (routingSCs : Nat) : ScscMap := (q.routingMaps routingSCs).1

def scscPlus1 (routingSCs : Nat) : ScscMap := (q.routingMaps routingSCs).2

def badTurnSCs (routingSCs : Nat) (sl firstSC : Fin 32) :
    List (Fin 32) → Option (Fin 32) → Option (Fin 32) → ScscMap → ScscMap
  | [], _, _, m => m
  | j :: js, secondSC, thirdSC, m =>
    if q.scToSL j ≠ some sl then badTurnSCs routingSCs sl firstSC js secondSC thirdSC m
    else if routingSCs = 2 then Function.update (Function.update m firstSC j) j j
    else
      match secondSC, thirdSC with
      | none, _ => badTurnSCs routingSCs sl firstSC js (some j) thirdSC m
      | some _, none => badTurnSCs routingSCs sl firstSC js secondSC (some j) m
      | some second, some third =>
        Function.update (Function.update (Function.update (Function.update m second third)
          firstSC third) j j) third j

def scscBadTurn (routingSCs : Nat) : ScscMap :=
  if routingSCs > 1 then
    (List.finRange 32).foldl
      (fun m i =>
        if q.linkSLsInuse i then
          let first := q.slToSC i
          q.badTurnSCs routingSCs i first (scsAfter first) none none (Function.update m first first)
        else m)
      fun _ => 15
  else fun _ => 15

end ScTables

/-! ## Blocks for the ports of a switch -/

/-- What the maps depend on at one port of a switch; `link` is the switch and port at the other
end of an inter-switch link, `scscMap` what was written last, by egress port. -/
structure DorPort (n : Nat) where
  valid : Bool
  up : Bool
  isIsl : Bool
  scscCurrent : Bool
  scscMap : Nat → ScscMap
  link : Option (Fin n × Nat)

/-- A switch with its ports from 1 to `numPorts`. -/
structure DorSwitch (n : Nat) where
  numPorts : Nat
  port : Nat → DorPort n

/-- `STL_SCSC_MULTISET`, the port masks as lists. -/
structure ScscMultiset where
  ingressPortMask : List Nat
  egressPortMask : List Nat
  scscMap : ScscMap

inductive TurnKind where
  | illegalTurn
  | changeDim
  | crossDateline1
  | crossDateline2
  | sameDim1
  | sameDim2
  deriving DecidableEq, Repr

namespace DorSwitch

variable {n D : Nat} (sw : DorSwitch n) (c : SmDorRouting D) (q : ScTables)
  (force : Bool) (datelineSwitch : Fin D → Bool)

def physicalPorts : List Nat := List.range' 1 sw.numPorts

def usable (p : Nat) : Bool := (sw.port p).valid && (sw.port p).up

def needsSet (m : ScscMap) (p1 p2 : Nat) : Bool :=
  !(sw.port p1).scscCurrent || force || decide ((sw.port p1).scscMap p2 ≠ m)

def portDim (p : Nat) : Option (Fin D) :=
  if p ∈ sw.physicalPorts && sw.usable p && (sw.port p).isIsl then c.getConfiguredDimensionForPort p
  else none

def portPos (p : Nat) : Nat :=
  match sw.portDim c p with
  | some i => c.getConfiguredPortPosInDim i p
  | none => 0

/-- The hosts' ports, and with one routing SC all ports, of which some map has to be written. -/
def hostIngress : List Nat :=
  sw.physicalPorts.filter fun p =>
    sw.usable p && !((sw.port p).isIsl && decide (c.routingSCs > 1)) &&
      (!(sw.port p).scscCurrent || force ||
        sw.physicalPorts.any fun i => decide ((sw.port p).scscMap i ≠ q.scscNoChg))

def hostBlocks : List ScscMultiset :=
  if sw.hostIngress c q force = [] then []
  else
    [{ ingressPortMask := sw.hostIngress c q force
       egressPortMask := sw.physicalPorts
       scscMap := q.scscNoChg }]

def pairBlocks (m : ScscMap) (ingress egress : Nat → Bool) : List ScscMultiset :=
  let pairs := (sw.physicalPorts.filter ingress).flatMap fun p1 =>
    ((sw.physicalPorts.filter egress).filter (sw.needsSet force m p1)).map fun p2 => (p1, p2)
  if pairs = [] then []
  else [{ ingressPortMask := pairs.map Prod.fst, egressPortMask := pairs.map Prod.snd, scscMap := m }]

def islToHostBlocks : List ScscMultiset :=
  sw.pairBlocks force (q.scsc0 c.routingSCs) (fun p => sw.usable p && (sw.port p).isIsl)
    fun p => (sw.port p).valid && !(sw.port p).isIsl

def turn (i : Fin D) (datelineSwitch : Bool) (pos1 : Nat) (k : Fin D) (pos2 : Nat) :
    TurnKind × ScscMap :=
  if k < i then (.illegalTurn, q.scscBadTurn c.routingSCs)
  else if c.topology = .mesh then (.changeDim, q.scscNoChg)
  else if i < k then (.changeDim, q.scsc0 c.routingSCs)
  else if !datelineSwitch then (.sameDim1, q.scscNoChg)
  else if pos1 ≠ pos2 then
    (if pos1 = 1 then .crossDateline1 else .crossDateline2, q.scscPlus1 c.routingSCs)
  else (if pos1 = 1 then .sameDim1 else .sameDim2, q.scscNoChg)

/-- A pair of ports goes into the block of its kind, which is opened by the first one. -/
def addTurn (k : TurnKind) (m : ScscMap) (p1 p2 : Nat) :
    List (TurnKind × ScscMultiset) → List (TurnKind × ScscMultiset)
  | [] => [(k, { ingressPortMask := [p1], egressPortMask := [p2], scscMap := m })]
  | (k', b) :: blocks =>
    if k' = k then
      (k', { b with
        ingressPortMask := p1 :: b.ingressPortMask
        egressPortMask := p2 :: b.egressPortMask }) :: blocks
    else (k', b) :: addTurn k m p1 p2 blocks

def turnsFrom (i : Fin D) : List (Nat × Nat) :=
  (sw.physicalPorts.filter fun p1 => sw.portDim c p1 = some i).flatMap fun p1 =>
    (sw.physicalPorts.filter fun p2 => (sw.portDim c p2).isSome).map fun p2 => (p1, p2)

def turnOf (i : Fin D) (p1 p2 : Nat) : TurnKind × ScscMap :=
  turn c q i (datelineSwitch i) (sw.portPos c p1) ((sw.portDim c p2).getD i) (sw.portPos c p2)

def dimensionTurns (i : Fin D) (turns : List (Nat × Nat)) : List (TurnKind × ScscMultiset) :=
  turns.foldl
    (fun blocks p =>
      let t := sw.turnOf c q datelineSwitch i p.1 p.2
      if sw.needsSet force t.2 p.1 p.2 then addTurn t.1 t.2 p.1 p.2 blocks else blocks)
    []

def dimensionBlocks (i : Fin D) : List ScscMultiset :=
  (sw.dimensionTurns c q force datelineSwitch i (sw.turnsFrom c i)).map Prod.snd

/-- `_generate_scsc_map`, on a sweep in which the ports of the switches changed. -/
def generateScscMap : List ScscMultiset :=
  sw.hostBlocks c q force ++
    if c.routingSCs = 1 then []
    else
      sw.islToHostBlocks c q force ++
        (List.finRange D).flatMap (sw.dimensionBlocks c q force datelineSwitch)

def writeScsc (blocks : List ScscMultiset) (p1 p2 : Nat) : ScscMap :=
  blocks.foldl
    (fun m b => if p1 ∈ b.ingressPortMask ∧ p2 ∈ b.egressPortMask then b.scscMap else m)
    ((sw.port p1).scscMap p2)

end DorSwitch

/-!
## Channels

The ports and cables of a mesh or torus, the groups of ports that routes use and the service
channels that packets use on them.
-/

def Way.portPos : Way → Nat
  | .right => 1
  | .left => 2

/-- A mesh or torus with its ports.  The links of a port that is up are those of the neighbour
pointers, and along a dimension of more than two switches one side of the port pairs goes to the
right and the other one to the left. -/
structure DorPortFabric (n D : Nat) extends DorFabric n D where
  config : SmDorRouting D
  switch : Fin n → DorSwitch n
  datelineSwitch : Option (Fin n)
  topology_mesh : config.topology = .mesh → ∀ i, toroidal i = false
  link_back : ∀ x p y r, p ∈ (switch x).physicalPorts → (switch x).usable p = true →
    ((switch x).port p).link = some (y, r) →
      ((switch x).port p).isIsl = true ∧ r ∈ (switch y).physicalPorts ∧
        (switch y).usable r = true ∧ ((switch y).port r).link = some (x, p)
  link_dimension : ∀ x p y r, p ∈ (switch x).physicalPorts → (switch x).usable p = true →
    ((switch x).port p).link = some (y, r) →
      ∃ i w, config.getConfiguredDimensionForPort p = some i ∧
        config.getConfiguredDimensionForPort r = some i ∧
        toDorTopology.neighbor w x i = some y ∧
        (2 < dimensionLength i → config.getConfiguredPortPosInDim i p = w.portPos ∧
          config.getConfiguredPortPosInDim i r = w.other.portPos)

namespace DorPortFabric

variable {n D : Nat} (F : DorPortFabric n D)

def datelineCoord (i : Fin D) : Int :=
  match F.datelineSwitch with
  | none => 0
  | some z => F.coords z i

def isDatelineSwitch (x : Fin n) (i : Fin D) : Bool :=
  F.toroidal i && decide (F.coords x i = F.datelineCoord i)

/-- `_add_ports`: the ports of a switch to a neighbour. -/
def addPorts (x y : Fin n) : List Nat :=
  (F.switch x).physicalPorts.filter fun p =>
    (F.switch x).usable p && decide (((F.switch x).port p).link.map Prod.fst = some y)

/-- `_get_dor_port_group`, before the ports are sorted by their load. -/
def getDorPortGroup (cl : DorClosure n) (x d : Fin n) : List Nat :=
  (F.dorNeighbors cl x d).flatMap fun o => (o.map (F.addPorts x)).getD []

/-- The SC to SC map of a switch from one port to another, after `_generate_scsc_map`. -/
def scscMap (q : ScTables) (force : Bool) (x : Fin n) : Nat → Nat → ScscMap :=
  (F.switch x).writeScsc
    ((F.switch x).generateScscMap F.config q force (F.isDatelineSwitch x))

/-- A directed link, by the port it leaves from, and a service channel on it. -/
structure Channel (n : Nat) where
  switch : Fin n
  port : Nat
  sc : Fin 32

variable (q : ScTables) (force : Bool) (cl : DorClosure n)

/-- The channel that a packet to `d` takes at the switch it has come to from channel `c`. -/
inductive NextChannel (d : Fin n) (c : Channel n) : Channel n → Prop
  | mk {y : Fin n} {r p : Nat} :
      ((F.switch c.switch).port c.port).link = some (y, r) → y ≠ d →
        p ∈ F.getDorPortGroup cl y d →
        NextChannel d c { switch := y, port := p, sc := F.scscMap q force y r p c.sc }

/-- The channels that packets of a service level to `d` use: those from the switch itself start
on the SC of the level, those from a host are mapped by the port of the host. -/
inductive Carries (sl : Fin 32) (d : Fin n) : Channel n → Prop
  | own {x : Fin n} {p : Nat} :
      x ≠ d → p ∈ F.getDorPortGroup cl x d →
        Carries sl d { switch := x, port := p, sc := q.slToSC sl }
  | host {x : Fin n} {h p : Nat} :
      h ∈ (F.switch x).physicalPorts → (F.switch x).usable h = true →
        ((F.switch x).port h).isIsl = false → x ≠ d → p ∈ F.getDorPortGroup cl x d →
        Carries sl d { switch := x, port := p, sc := F.scscMap q force x h p (q.slToSC sl) }
  | forward {c c' : Channel n} :
      Carries sl d c → F.NextChannel q force cl d c c' → Carries sl d c'

def HasTwoSCs (sl : Fin 32) : Prop :=
  q.linkSLsInuse sl = true ∧ ∃ j, q.slToSC sl < j ∧ q.scToSL j = some sl

/-- The channel dependency graph: some packet holds `c` while it waits for `c'`. -/
def DependsOn (c c' : Channel n) : Prop :=
  ∃ sl d, HasTwoSCs q sl ∧ F.Carries q force cl sl d c ∧ F.NextChannel q force cl d c c'

end DorPortFabric

end OpaFm.Dor
