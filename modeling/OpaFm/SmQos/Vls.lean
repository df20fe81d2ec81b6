import OpaFm.Routing.AssignSls
import Mathlib.Data.Finset.Card

/-!
# Virtual lanes

What the FM knows of the VLs for a number of them: the map from SCs, the VLs in use with their
share of the bandwidth, and the virtual fabrics on each.
-/

namespace OpaFm.SmQos

def stlMaxVls : Nat := 32
def stlMaxScs : Nat := 32

def mgmtVl : Nat := 15

/-! ## Sets of VLs

A `bitset_t` of `STL_MAX_VLS` bits, which fill its one word. -/

abbrev VlSet := Finset Nat

namespace VlSet

def findNextOne (s : VlSet) (vl : Nat) : Option Nat :=
  (List.range' vl (stlMaxVls - vl)).find? (· ∈ s)

def findFirstOne (s : VlSet) : Option Nat := findNextOne s 0

end VlSet

/-! ## Arithmetic of machine words -/

/-- `x - k` in a `uint8_t`, and in a `uint16_t`. -/
def sub8 (x k : Nat) : Nat := (x + 256 - k) % 256

def sub16 (x k : Nat) : Nat := (x + 65536 - k) % 65536

/-! ## Quality of service -/

structure VlarbElement where
  vl : Nat := 0
  weight : Nat := 0
  deriving DecidableEq

/-- `VlarbList_t`: the entries that were written for ports of one capacity and MTU. -/
structure VlarbList where
  cap : Nat
  mtu : Nat
  vlarbLow : List VlarbElement

/-- `Qos_t`.  The virtual fabrics of a VL are those up to the first -1. -/
structure Qos where
  numVLs : Nat
  activeVLs : Nat
  scvl : Nat → Nat
  highPriorityVLs : VlSet
  lowPriorityVLs : VlSet
  bw : Nat → Nat
  weightMultiplier : Nat := 0
  vlvf : Nat → List Nat
  vlarbList : List VlarbList := []

/-- Where `GetQos` looks in the array `sm_Qos`. -/
def qosIndex (vl : Nat) : Nat := if 1 ≤ vl ∧ vl < stlMaxVls then vl else 1

def getQos (smQos : Nat → Qos) (vl : Nat) : Qos := smQos (qosIndex vl)

/-- What the QoS setup reads of a port. -/
structure QosPort where
  vl1 : Nat
  maxVlMtu : Nat
  arbitrationLowCap : Nat
  arbitrationHighCap : Nat
  isIsl : Bool := false
  qosHfiFilter : Bool := false
  isCa : Bool
  vfMember : Finset Nat
  /-- The members of the port at the other end. -/
  neighborVfMember : Option (Finset Nat)

/-!
## Bandwidth of virtual fabrics

`sm_update_bw` shares the bandwidth that is not configured among the QoS virtual fabrics without
one, with a part for all virtual fabrics without QoS together.
-/

open OpaFm.Partition OpaFm.Routing

structure BwVF extends QosVF where
  percentBandwidth : Nat := undefinedXml8

namespace BwVF

def lowPriority (vfp : BwVF) : Bool := vfp.qosEnable && vfp.priority == 0

def noBw (vfp : BwVF) : Bool := vfp.lowPriority && vfp.percentBandwidth == undefinedXml8

end BwVF

/-- The active virtual fabrics.  The parser of the configuration refuses a second one of a name. -/
structure BwFabrics where
  vFabric : List BwVF
  numberOfVfsAll : Nat
  names : (vFabric.map fun v => v.name).Nodup
  active_le : vFabric.length ≤ numberOfVfsAll

/-! ### The shares -/

structure BwCounts where
  bwInUse : Int := 0
  nonQosVfs : Nat := 0
  qosNoBwVfs : Nat := 0

def countBw (t : BwCounts) (vfp : BwVF) : BwCounts :=
  if vfp.qosEnable then
    if vfp.priority = 0 then
      if vfp.percentBandwidth = undefinedXml8 then { t with qosNoBwVfs := t.qosNoBwVfs + 1 }
      else { t with bwInUse := t.bwInUse + vfp.percentBandwidth }
    else t
  else { t with nonQosVfs := t.nonQosVfs + 1 }

structure BwShares where
  freeBw : Int
  shareSz : Int
  nonQosShareSz : Int

/-- The size of the first share, and of the one for all virtual fabrics without QoS. -/
def bwShares (t : BwCounts) (freeBw : Int) : BwShares :=
  if t.nonQosVfs = 0 then
    if t.qosNoBwVfs = 0 then ⟨freeBw, 0, 0⟩ else ⟨freeBw, freeBw / t.qosNoBwVfs, 0⟩
  else
    let shareSz := freeBw / (t.qosNoBwVfs + 1)
    let nonQosShareSz := freeBw - shareSz * t.qosNoBwVfs
    if nonQosShareSz < 5 then
      ⟨freeBw - 5, (freeBw - 5) / if t.qosNoBwVfs = 0 then 1 else t.qosNoBwVfs, 5⟩
    else ⟨freeBw - nonQosShareSz, shareSz, nonQosShareSz⟩

/-! ### The loops -/

/-- The loop that stores the shares, with the last value of `shareSz`. -/
def assignBw (nonQosShareSz : Int) : Int → Int → Nat → List BwVF → List BwVF × Int
  | _, shareSz, _, [] => ([], shareSz)
  | freeBw, shareSz, qosNoBwVfs, vfp :: rest =>
    if vfp.qosEnable then
      if vfp.priority = 0 ∧ vfp.percentBandwidth = undefinedXml8 then
        let free := freeBw - shareSz
        let left := qosNoBwVfs - 1
        let r := assignBw nonQosShareSz free (if left = 0 then 0 else free / left) left rest
        ({ vfp with percentBandwidth := toUint8 shareSz } :: r.1, r.2)
      else
        let r := assignBw nonQosShareSz freeBw shareSz qosNoBwVfs rest
        (vfp :: r.1, r.2)
    else
      let r := assignBw nonQosShareSz freeBw shareSz qosNoBwVfs rest
      ({ vfp with percentBandwidth := toUint8 nonQosShareSz } :: r.1, r.2)

/-- The turn of the last loop for one virtual fabric, which updates the active list. -/
def reportBw (shareSz : Int) (vFabric : List BwVF) (vf : Nat) : List BwVF :=
  match vFabric[vf]? with
  | none => vFabric
  | some v =>
    let vfp := if v.noBw then { v with percentBandwidth := toUint8 shareSz } else v
    let vFabric := vFabric.set vf vfp
    match findVfIdxInActiveList vfp.toQosVF (vFabric.map (·.toQosVF)) with
    | none => vFabric
    | some activeVfIdx =>
      vFabric.modify activeVfIdx fun v => { v with percentBandwidth := vfp.percentBandwidth }

def smUpdateBw (vfs : BwFabrics) : Status × List BwVF :=
  if vfs.numberOfVfsAll = 0 then (.ok, vfs.vFabric)
  else
    let t := vfs.vFabric.foldl countBw {}
    let freeBw := 100 - t.bwInUse
    let neededFreeBw := (if t.nonQosVfs = 0 then 0 else 5) + t.qosNoBwVfs
    if freeBw < (neededFreeBw : Nat) then (.bad, vfs.vFabric)
    else
      let s := bwShares t freeBw
      let r := assignBw s.nonQosShareSz s.freeBw s.shareSz t.qosNoBwVfs vfs.vFabric
      (.ok, (List.range r.1.length).foldl (reportBw r.2) r.1)

end OpaFm.SmQos
