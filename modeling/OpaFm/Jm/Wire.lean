import OpaFm.Cs.Bitset
import Mathlib.Data.Vector.Basic

/-!
# Job management on the wire

The GUID list and the use matrix of a job as bytes: a count in network order, and so many elements.
A buffer is the bytes that may be touched, and an access outside of it has no result.
-/

namespace OpaFm.Jm

open OpaFm.Cs

/-! ## Network order -/

abbrev Buffer := List (BitVec 8)

def poke (mem : Buffer) (i : Nat) (b : BitVec 8) : Option Buffer :=
  if i < mem.length then some (mem.set i b) else none

def hton16array (mem : Buffer) (i : Nat) (v : BitVec 16) : Option Buffer := do
  let mem ← poke mem i ((v >>> 8).setWidth 8)
  poke mem (i + 1) (v.setWidth 8)

def hton64array (mem : Buffer) (i : Nat) (v : BitVec 64) : Option Buffer := do
  let mem ← poke mem i ((v >>> 56).setWidth 8)
  let mem ← poke mem (i + 1) ((v >>> 48).setWidth 8)
  let mem ← poke mem (i + 2) ((v >>> 40).setWidth 8)
  let mem ← poke mem (i + 3) ((v >>> 32).setWidth 8)
  let mem ← poke mem (i + 4) ((v >>> 24).setWidth 8)
  let mem ← poke mem (i + 5) ((v >>> 16).setWidth 8)
  let mem ← poke mem (i + 6) ((v >>> 8).setWidth 8)
  poke mem (i + 7) (v.setWidth 8)

def ntoh16array (buf : Buffer) : Option (BitVec 16) := do
  let a0 ← buf[0]?
  let a1 ← buf[1]?
  some (a0.setWidth 16 <<< 8 ||| a1.setWidth 16)

def ntoh64array (buf : Buffer) : Option (BitVec 64) := do
  let a0 ← buf[0]?
  let a1 ← buf[1]?
  let a2 ← buf[2]?
  let a3 ← buf[3]?
  let a4 ← buf[4]?
  let a5 ← buf[5]?
  let a6 ← buf[6]?
  let a7 ← buf[7]?
  some (a0.setWidth 64 <<< 56 ||| a1.setWidth 64 <<< 48 ||| a2.setWidth 64 <<< 40 |||
    a3.setWidth 64 <<< 32 ||| a4.setWidth 64 <<< 24 ||| a5.setWidth 64 <<< 16 |||
    a6.setWidth 64 <<< 8 ||| a7.setWidth 64)

/-! ## Values -/

/-- What the functions return when they fail, with `*bytes` at 0: `VSTATUS_BAD`, or the status of
`vs_pool_alloc`. -/
inductive JmStatus where
  | bad
  | alloc
  deriving DecidableEq, Repr

abbrev Decoded (α : Type) := Except JmStatus (α × Nat)

structure JmWireGuidList where
  count : BitVec 16
  entries : List.Vector (BitVec 64) count.toNat

structure JmWireUseElement where
  bursty : BitVec 1
  swidx : BitVec 15
  dlid : BitVec 16
  use : BitVec 8
  deriving DecidableEq

structure JmWireUseMatrix where
  multiplier : BitVec 16
  base : BitVec 8
  count : BitVec 16
  elements : List.Vector JmWireUseElement count.toNat

/-- `JmEntry_t`, of whose ports only the GUIDs are sent. -/
structure JmEntry where
  portCount : BitVec 16
  ports : List.Vector (BitVec 64) portCount.toNat
  useMatrix : JmWireUseMatrix

def jmNsizeGuidlistHeader : Nat := 2
def jmNsizeGuidlistElement : Nat := 8
def jmNsizeGuidlistElements (n : Nat) : Nat := n * jmNsizeGuidlistElement
def jmNsizeGuidlist (n : Nat) : Nat := jmNsizeGuidlistHeader + jmNsizeGuidlistElements n

def jmNsizeUsematrixHeader : Nat := 5
def jmNsizeUsematrixElement : Nat := 5
def jmNsizeUsematrixElements (n : Nat) : Nat := n * jmNsizeUsematrixElement
def jmNsizeUsematrix (n : Nat) : Nat := jmNsizeUsematrixHeader + jmNsizeUsematrixElements n

/-- `sizeof(JmWireUseMatrix_t)`, which is what is allocated for each element. -/
def sizeofUseMatrix : Nat := 16

/-! ## GUID lists -/

section

variable {π : Type} (gives : π → Nat → Bool) (smPool : π)

def decodeGuids : (n : Nat) → Buffer → Option (List.Vector (BitVec 64) n)
  | 0, _ => some List.Vector.nil
  | n + 1, buf => do
      let guid ← ntoh64array buf
      let guids ← decodeGuids n (buf.drop jmNsizeGuidlistElement)
      some (guid ::ᵥ guids)

def smJmDecodeTypeGuidList (buf : Buffer) (blen : Nat) : Option (Decoded JmWireGuidList) :=
  if blen < jmNsizeGuidlistHeader then some (.error .bad)
  else do
    let count ← ntoh16array buf
    let buf := buf.drop jmNsizeGuidlistHeader
    let blen := blen - jmNsizeGuidlistHeader
    if blen < jmNsizeGuidlistElements count.toNat then some (.error .bad)
    else if !vsPoolAlloc gives (some smPool) (count.toNat * 8) then some (.error .alloc)
    else do
      let entries ← decodeGuids count.toNat buf
      some (.ok (⟨count, entries⟩, jmNsizeGuidlist count.toNat))

def encodeGuids (mem : Buffer) (i : Nat) : List (BitVec 64) → Option Buffer
  | [] => some mem
  | guid :: guids => do
      let mem ← hton64array mem i guid
      encodeGuids mem (i + jmNsizeGuidlistElement) guids

def smJmEncodeTypeGuidList (mem : Buffer) (blen : Nat) (job : JmEntry) :
    Option (Decoded Buffer) :=
  if blen < jmNsizeGuidlist job.portCount.toNat then some (.error .bad)
  else do
    let mem ← hton16array mem 0 job.portCount
    let mem ← encodeGuids mem jmNsizeGuidlistHeader job.ports.toList
    some (.ok (mem, jmNsizeGuidlist job.portCount.toNat))

/-! ## Use matrices -/

def smJmDecodeTypeUseElement (buf : Buffer) (blen : Nat) : Option (Decoded JmWireUseElement) :=
  if blen < jmNsizeUsematrixElement then some (.error .bad)
  else do
    let b0 ← buf[0]?
    let b1 ← buf[1]?
    let dlid ← ntoh16array (buf.drop 2)
    let use ← buf[4]?
    some (.ok (
      { bursty := if b0 &&& 0x80#8 ≠ 0#8 then 1#1 else 0#1
        swidx := (b0 &&& 0x7f#8).setWidth 15 <<< 8 ||| b1.setWidth 15
        dlid := dlid
        use := use }, jmNsizeUsematrixElement))

/-- `sm_jm_encode_type_use_element`, at an offset. -/
def smJmEncodeTypeUseElement (mem : Buffer) (i blen : Nat) (element : JmWireUseElement) :
    Option (Decoded Buffer) :=
  if blen < jmNsizeUsematrixElement then some (.error .bad)
  else do
    let mem ← hton16array mem i (element.swidx.setWidth 16 &&& 0x7fff#16)
    let b0 ← mem[i]?
    let mem ← poke mem i (b0 ||| element.bursty.setWidth 8 <<< 7)
    let mem ← hton16array mem (i + 2) element.dlid
    let mem ← poke mem (i + 4) element.use
    some (.ok (mem, jmNsizeUsematrixElement))

def decodeElements : (n : Nat) → Buffer → Nat →
    Option (Except JmStatus (List.Vector JmWireUseElement n))
  | 0, _, _ => some (.ok List.Vector.nil)
  | n + 1, buf, blen =>
    match smJmDecodeTypeUseElement buf blen with
    | none => none
    | some (.error s) => some (.error s)
    | some (.ok (element, j)) =>
      match decodeElements n (buf.drop j) (blen - j) with
      | none => none
      | some (.error s) => some (.error s)
      | some (.ok elements) => some (.ok (element ::ᵥ elements))

def smJmDecodeTypeUseMatrix (buf : Buffer) (blen : Nat) : Option (Decoded JmWireUseMatrix) :=
  if blen < jmNsizeUsematrixHeader then some (.error .bad)
  else do
    let multiplier ← ntoh16array buf
    let base ← buf[2]?
    let count ← ntoh16array (buf.drop 3)
    let buf := buf.drop jmNsizeUsematrixHeader
    let blen := blen - jmNsizeUsematrixHeader
    -- nothing more is read or allocated for an empty matrix
    if count.toNat ≠ 0 ∧ blen < jmNsizeUsematrixElements count.toNat then some (.error .bad)
    else if count.toNat ≠ 0 ∧
        !vsPoolAlloc gives (some smPool) (count.toNat * sizeofUseMatrix) then some (.error .alloc)
    else
      match decodeElements count.toNat buf blen with
      | none => none
      | some (.error s) => some (.error s)
      | some (.ok elements) =>
        some (.ok (⟨multiplier, base, count, elements⟩, jmNsizeUsematrix count.toNat))

def encodeElements (mem : Buffer) (i blen : Nat) :
    List JmWireUseElement → Option (Except JmStatus Buffer)
  | [] => some (.ok mem)
  | element :: elements =>
    match smJmEncodeTypeUseElement mem i blen element with
    | none => none
    | some (.error s) => some (.error s)
    | some (.ok (mem, j)) => encodeElements mem (i + j) (blen - j) elements

def smJmEncodeTypeUseMatrix (mem : Buffer) (blen : Nat) (job : JmEntry) :
    Option (Decoded Buffer) :=
  if blen < jmNsizeUsematrix job.useMatrix.count.toNat then some (.error .bad)
  else do
    let mem ← hton16array mem 0 job.useMatrix.multiplier
    let mem ← poke mem 2 job.useMatrix.base
    let mem ← hton16array mem 3 job.useMatrix.count
    match encodeElements mem jmNsizeUsematrixHeader (blen - jmNsizeUsematrixHeader)
        job.useMatrix.elements.toList with
    | none => none
    | some (.error s) => some (.error s)
    | some (.ok mem) => some (.ok (mem, jmNsizeUsematrix job.useMatrix.count.toNat))

end

end OpaFm.Jm
