import OpaFm.SmQos.Vls
import OpaFm.Partition.VirtualFabric
import OpaFm.Routing.SelectPorts
import Mathlib.Algebra.GroupWithZero.Nat

/-!
# VL arbitration tables

`FillLowRR` spreads the VLs of low priority over the entries of a table, in slices of equal
bandwidth.  The VLs with the largest share take turns with all others, and each turn ends with
as many entries of the others as keep the two apart to the end of the table.
-/

namespace OpaFm.SmQos

/-! ## Slices -/

def vlsWithBw (vlsInUse : VlSet) (bw : Nat → Nat) : List Nat :=
  (List.range stlMaxVls).filter fun vl => vl ∈ vlsInUse ∧ 0 < bw vl

def setWeightMultiplier (vlsInUse : VlSet) (bw : Nat → Nat) : Nat :=
  if vlsInUse.card ≤ 1 then 100
  else
    let vls := vlsWithBw vlsInUse bw
    let minBandwidth := vls.foldl (fun m vl => if bw vl < m then bw vl else m) 0xff
    let tbase := ¬vls.any fun vl => 2 < bw vl % 10
    let indivisible := vls.any fun vl => bw vl % minBandwidth ≠ 0
    if tbase then
      if minBandwidth ≠ 100 ∧ minBandwidth ≠ 50 ∧ indivisible then 10 else minBandwidth
    else if 5 < minBandwidth then if indivisible then 5 else minBandwidth
    else 5

def roundBw (bw : Nat) : Nat :=
  if bw ≠ 0 ∧ bw % 5 ≠ 0 then
    if 2 < bw % 5 then bw + (5 - bw % 5)
    else if bw - bw % 5 = 0 then 5
    else bw - bw % 5
  else bw

def roundedBw (qos : Qos) (vl : Nat) : Nat :=
  if vl < qos.activeVLs then roundBw (qos.bw vl) else qos.bw vl

/-- The multiplier that `sm_roundVLBandwidths` sets. -/
def roundedMultiplier (qos : Qos) : Nat := setWeightMultiplier qos.lowPriorityVLs (roundedBw qos)

/-- `sm_roundVLBandwidths`; no result where the assertion fails. -/
def smRoundVLBandwidths (qos : Qos) : Option Qos :=
  if ((List.range qos.activeVLs).map qos.bw).sum ≤ 100 then
    some { qos with weightMultiplier := roundedMultiplier qos }
  else none

/-! ## Entries -/

/-- The locals of `FillLowRR`, with the entries written so far. -/
structure RrState where
  vlblockp : List VlarbElement := []
  vlSlices : Nat → Nat
  vlSlots : Nat → Nat
  totalSlots : Nat
  vlsInUse : VlSet
  highbwVLs : VlSet
  currentVl : Option Nat := none
  interleave : Int := 0

/-- What does not change while the table is filled. -/
structure RrMode where
  weight : Nat
  arbitrationLowCap : Nat
  bwFitsInTable : Bool
  twoSlicesPerSlot : Bool

def setVlarbEntry (c : RrMode) (vl : Nat) (s : RrState) : RrState :=
  if c.bwFitsInTable ∧ ¬c.twoSlicesPerSlot then
    { s with
      vlblockp := s.vlblockp ++ [⟨vl, c.weight % 256⟩]
      vlSlices := Function.update s.vlSlices vl (sub8 (s.vlSlices vl) 1)
      vlSlots := Function.update s.vlSlots vl (sub8 (s.vlSlots vl) 1)
      totalSlots := sub16 s.totalSlots 1 }
  else if c.bwFitsInTable then
    if s.vlSlices vl = 1 then
      { s with
        vlblockp := s.vlblockp ++ [⟨vl, c.weight % 256⟩]
        vlSlices := Function.update s.vlSlices vl (sub8 (s.vlSlices vl) 1)
        vlSlots := Function.update s.vlSlots vl (sub8 (s.vlSlots vl) 1)
        totalSlots := sub16 s.totalSlots 1 }
    else
      { s with
        vlblockp := s.vlblockp ++ [⟨vl, if 254 < c.weight * 2 then 254 else c.weight * 2⟩]
        vlSlices := Function.update s.vlSlices vl (sub8 (s.vlSlices vl) 2)
        vlSlots := Function.update s.vlSlots vl (sub8 (s.vlSlots vl) 1)
        totalSlots := sub16 s.totalSlots 1 }
  else
    -- the same weight for all VLs
    { s with
      vlblockp := s.vlblockp ++ [⟨vl, c.weight % 256⟩]
      vlSlices := Function.update s.vlSlices vl 0
      vlSlots := Function.update s.vlSlots vl 0
      totalSlots := sub16 s.totalSlots (s.vlSlots vl) }

/-- The loop over the VLs with the largest share.  The set only loses the VL at hand, so that it
may be walked by number; no result for a division by zero. -/
def highLoop (c : RrMode) : List Nat → RrState → Option RrState
  | [], s => some s
  | i :: rest, s =>
    if i ∉ s.highbwVLs then highLoop c rest s
    else if s.interleave = 0 ∧ s.vlSlots i = 0 then none
    else
      let s := if s.interleave = 0 then
          { s with
            interleave :=
              ((s.totalSlots : Int) - s.highbwVLs.card * s.vlSlots i).tdiv (s.vlSlots i) }
        else s
      if s.vlSlices i = 0 then some s
      else if c.arbitrationLowCap ≤ s.vlblockp.length then some s
      else
        let s := setVlarbEntry c i s
        highLoop c rest <| if s.vlSlices i = 0 ∨ s.vlSlots i = 0 then
            { s with highbwVLs := s.highbwVLs.erase i }
          else s

def lowLoop (c : RrMode) : Nat → RrState → RrState
  | 0, s => s
  | n + 1, s =>
    match s.currentVl with
    | none => s
    | some vl =>
      if c.arbitrationLowCap ≤ s.vlblockp.length then s
      else
        let s := setVlarbEntry c vl s
        let s := if s.vlSlices vl = 0 then { s with vlsInUse := s.vlsInUse.erase vl } else s
        lowLoop c n
          { s with
            currentVl := (s.vlsInUse.findNextOne (vl + 1)).or s.vlsInUse.findFirstOne }

def rrLoop (c : RrMode) : Nat → RrState → Option RrState
  | 0, _ => none
  | fuel + 1, s =>
    if c.arbitrationLowCap ≤ s.vlblockp.length then some s
    else
      (highLoop c (List.range stlMaxVls) s).bind fun s =>
        let s := { lowLoop c s.interleave.toNat s with interleave := 0 }
        if s.highbwVLs.card = 0 then
          if 0 < s.vlsInUse.card ∧ s.totalSlots ≠ 0 then
            rrLoop c fuel { s with interleave := s.totalSlots }
          else some s
        else rrLoop c fuel s

/-! ## The table -/

def slicesOf (weightMultiplier bw : Nat) : Nat :=
  let slices := bw / weightMultiplier
  let slices := if weightMultiplier ≤ (bw - slices * weightMultiplier) * 2 then slices + 1 else slices
  if slices = 0 then 1 else slices

/-- `highbw` and `highbwVLs`, after one more VL. -/
def highbwStep (bw : Nat → Nat) (x : Int × VlSet) (vl : Nat) : Int × VlSet :=
  if x.1 < bw vl then (bw vl, {vl})
  else if (bw vl : Int) = x.1 then (x.1, insert vl x.2)
  else x

def bestChoiceStep (vlSlots : Nat → Nat) (best : Option Nat) (vl : Nat) : Option Nat :=
  if 1 < vlSlots vl then
    match best with
    | none => some vl
    | some b => if vlSlots vl < vlSlots b then some vl else some b
  else best

/-- The slices and slots of all VLs, and the sum of the slots. -/
structure VlShares where
  vlSlices : Nat → Nat
  vlSlots : Nat → Nat
  totalSlots : Nat

def sharesOf (vls : List Nat) (weightMultiplier : Nat) (bw : Nat → Nat) (twoSlices : Bool) :
    VlShares :=
  let vlSlices vl := if vl ∈ vls then slicesOf weightMultiplier (bw vl) else 0
  let vlSlots vl := if twoSlices then vlSlices vl / 2 + vlSlices vl % 2 else vlSlices vl
  ⟨vlSlices, vlSlots, (vls.map vlSlots).sum⟩

def loseSlot (vls : List Nat) (x : VlShares) : VlShares :=
  match vls.foldl (bestChoiceStep x.vlSlots) none with
  | none => x
  | some vl =>
    { vlSlices := Function.update x.vlSlices vl ((x.vlSlots vl - 1) * 2)
      vlSlots := Function.update x.vlSlots vl (x.vlSlots vl - 1)
      totalSlots := x.totalSlots - 1 }

/-- How `FillLowRR` fills a table, up to its loop. -/
def rrStart (qos : Qos) (arbitrationLowCap weight : Nat) : RrMode × RrState :=
  let vls := (List.range stlMaxVls).filter (· ∈ qos.lowPriorityVLs)
  let twoSlices : Bool := qos.weightMultiplier = 5 ∧ arbitrationLowCap < 20
  let x := sharesOf vls qos.weightMultiplier qos.bw twoSlices
  let x := if twoSlices ∧ arbitrationLowCap < x.totalSlots then loseSlot vls x else x
  let highbwVLs := (vls.foldl (highbwStep qos.bw) (-1, ∅)).2
  let vlsInUse := qos.lowPriorityVLs \ highbwVLs
  ({ weight := weight
     arbitrationLowCap := arbitrationLowCap
     bwFitsInTable := x.totalSlots ≤ arbitrationLowCap
     twoSlicesPerSlot := twoSlices },
   { vlSlices := x.vlSlices
     vlSlots := x.vlSlots
     totalSlots := x.totalSlots
     vlsInUse := vlsInUse
     highbwVLs := highbwVLs
     currentVl := vlsInUse.findFirstOne })

/-- `FillLowRR`: the entries it writes, and the new cache; no result for a division by zero. -/
def fillLowRR (qos : Qos) (maxVlMtu arbitrationLowCap weight : Nat) :
    Option (Qos × List VlarbElement) :=
  match qos.vlarbList.find? fun e => e.mtu = maxVlMtu ∧ e.cap = arbitrationLowCap with
  | some mtuVlarbs => some (qos, mtuVlarbs.vlarbLow)
  | none =>
    (smRoundVLBandwidths qos).bind fun qos =>
      if qos.weightMultiplier = 0 ∧ qos.lowPriorityVLs ≠ ∅ then none
      else
        let (c, s) := rrStart qos arbitrationLowCap weight
        (rrLoop c (arbitrationLowCap + 1) s).map fun s =>
          ({ qos with vlarbList := ⟨arbitrationLowCap, maxVlMtu, s.vlblockp⟩ :: qos.vlarbList },
            s.vlblockp)

/-! ## All tables of a port -/

def stlMaxLowCap : Nat := 128
def stlMaxPreemptCap : Nat := 32

def tableOf (size : Nat) (entries : List VlarbElement) : List VlarbElement :=
  entries ++ List.replicate (size - entries.length) ⟨0, 0⟩

/-- `PortDataVLArb`; the words of the matrix have a bit for each VL. -/
structure PortDataVLArb where
  vlarbLow : List VlarbElement
  vlarbHigh : List VlarbElement
  vlarbPre : List VlarbElement
  vlarbMatrix : Nat → BitVec 32

/-- `Decode_MTU_To_Int(mtu) / 64`.  The macro has no brackets around it, so that the division
leaves out its first branch. -/
def vlarbWeight (mtu : Nat) : Nat :=
  if mtu = 1 then 256
  else
    (if mtu = 2 then 512
      else if mtu = 3 then 1024
      else if mtu = 4 then 2048
      else if mtu = 5 then 4096
      else if mtu = 6 then 8192
      else if mtu = 7 then 10240
      else 0) / 64

/-- `QosFillVlarbTable`, which leaves the matrix as it is. -/
def qosFillVlarbTable (portp : QosPort) (qos : Qos) (arbp : PortDataVLArb) :
    Option (Qos × PortDataVLArb) :=
  let weight := vlarbWeight portp.maxVlMtu
  let high := ((List.range stlMaxVls).filter (· ∈ qos.highPriorityVLs)).take
    portp.arbitrationHighCap
  let arbp :=
    { arbp with
      vlarbLow := tableOf stlMaxLowCap []
      vlarbHigh := tableOf stlMaxLowCap (high.map fun vl => ⟨vl, weight % 256⟩)
      vlarbPre := tableOf stlMaxPreemptCap [] }
  if qos.lowPriorityVLs.card ≠ 0 then
    (fillLowRR qos portp.maxVlMtu portp.arbitrationLowCap weight).map fun (qos, entries) =>
      (qos, { arbp with vlarbLow := tableOf stlMaxLowCap entries })
  else some (qos, arbp)

/-- `sm_FillVlarbTableDefault`: one entry for each data VL, and the rest unused. -/
def smFillVlarbTableDefault (numVls : Nat) : PortDataVLArb where
  vlarbLow :=
    let n := min numVls (stlMaxLowCap - 1)
    (List.range n).map (fun i => ⟨if i < mgmtVl then i else i + 1, 1⟩) ++
      List.replicate (stlMaxLowCap - n) ⟨mgmtVl, 0⟩
  vlarbHigh := List.replicate stlMaxLowCap ⟨mgmtVl, 0⟩
  vlarbPre := List.replicate stlMaxPreemptCap ⟨mgmtVl, 0⟩
  vlarbMatrix := fun _ => 0

/-!
## Preemption

A VL may preempt those of smaller rank.  `sm_fill_stl_vlarb_table` takes the rank of a VL from
the virtual fabrics on it and fills the matrix with a bit for each pair.
-/

open OpaFm.Partition OpaFm.Routing

structure PreemptVF extends VF where
  preemptRank : Nat

abbrev VlVfMap := Nat → List Nat

/-- `sm_select_vlvf_map`, at a port; `vFabric` is the array of active virtual fabrics. -/
def smSelectVlvfMap (vFabric : Nat → PreemptVF) (qos : Qos) (portp : QosPort) :
    Status × VlVfMap :=
  if portp.isIsl then (.ok, qos.vlvf)
  else
    match if portp.isCa then some portp.vfMember else portp.neighborVfMember with
    | none => (.bad, fun _ => [])
    | some vfmember =>
      if vfmember.card = 0 then (.bad, fun _ => [])
      else (.ok, fun vl => (qos.vlvf vl).filter fun vf => (vFabric vf).index ∈ vfmember)

/-- The loop that collects `vlRank`, from VL `i` on.  It ends at the first VL without a virtual
fabric. -/
def rankLoop (vFabric : Nat → PreemptVF) (vlvfmap : VlVfMap) (numVls : Nat) :
    Nat → Nat → (Nat → Nat) → Nat → Nat
  | 0, _, vlRank => vlRank
  | n + 1, i, vlRank =>
    match vlvfmap i with
    | [] => vlRank
    | vf :: _ =>
      if numVls ≤ i ∨ i = mgmtVl then vlRank
      else
        rankLoop vFabric vlvfmap numVls n (i + 1)
          (Function.update vlRank i (vFabric vf).preemptRank)

def vlRanks (vFabric : Nat → PreemptVF) (vlvfmap : VlVfMap) (numVls : Nat) : Nat → Nat :=
  rankLoop vFabric vlvfmap numVls stlMaxVls 0 fun _ => 0

def matrixRow (vlRank : Nat → Nat) (numVls i : Nat) : BitVec 32 :=
  if i < numVls then
    (List.range numVls).foldl (fun row j =>
      if vlRank j ≠ 0 ∧ vlRank i ≠ 0 ∧ vlRank j < vlRank i then row ||| 1#32 <<< j else row) 0
  else 0

/-- `sm_fill_stl_vlarb_table`, with the array of QoS data that it leaves.  Without a port, for
a table inside a switch, the map is that of the VLs of the node. -/
def smFillStlVlarbTable (vfs : Option (Nat → PreemptVF)) (smQos : Nat → Qos) (vlCap : Nat)
    (portp : Option QosPort) (arbp : PortDataVLArb) :
    Option (Status × PortDataVLArb × (Nat → Qos)) :=
  if portp.any QosPort.qosHfiFilter then some (.ok, arbp, smQos)
  else
    let numVls := portp.elim vlCap QosPort.vl1
    let qos := getQos smQos numVls
    match vfs with
    | none => some (.ok, smFillVlarbTableDefault numVls, smQos)
    | some vFabric =>
      let vlvfmap := portp.elim qos.vlvf fun p => (smSelectVlvfMap vFabric qos p).2
      let vlRank := vlRanks vFabric vlvfmap numVls
      let arbp : PortDataVLArb :=
        { vlarbLow := tableOf stlMaxLowCap []
          vlarbHigh := tableOf stlMaxLowCap []
          vlarbPre := tableOf stlMaxPreemptCap []
          vlarbMatrix := matrixRow vlRank numVls }
      match portp with
      | none => some (.bad, arbp, smQos)
      | some portp =>
        (qosFillVlarbTable portp qos arbp).map fun (qos, arbp) =>
          (.ok, arbp, Function.update smQos (qosIndex numVls) qos)

end OpaFm.SmQos
