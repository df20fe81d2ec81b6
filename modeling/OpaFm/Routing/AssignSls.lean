import OpaFm.Cs.Bitset
import OpaFm.Partition.VirtualFabric
import OpaFm.Routing.SelectPorts

/-!
# Virtual fabrics with their service levels

What the quality of service reads of a virtual fabric, and the list of those that are active.
-/

namespace OpaFm.Routing

open OpaFm.Cs OpaFm.Partition

/-- What a `VF_t` has besides for its service levels. -/
structure QosVF extends VF where
  name : String
  standby : Bool
  requiresRespSl : Bool
  containsMcast : Bool

/-- An `int` stored in a `uint8_t`, and passed as a `size_t`. -/
def toUint8 (n : Int) : Nat := (n % 256).toNat

def findVfIdxInActiveList (vfToFind : QosVF) (vFabric : List QosVF) : Option Nat :=
  if vfToFind.name = "" then none
  else vFabric.findIdx? fun v => v.name ≠ "" ∧ v.name = vfToFind.name

end OpaFm.Routing
