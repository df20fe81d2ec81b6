import OpaFm.Multicast.Mft

/-!
# Programming the forwarding tables

`sm_set_all_mft` sends a switch those blocks of its table that have changed since
the last sweep.  A block holds one position of the rows of eight MLIDs.  The old rows
are compared through a local variable of 16 bits.
-/

namespace OpaFm.Multicast

open OpaFm.Fabric

def stlNumMftPositionsMask : Nat := 4

def rowPositions (numPorts : Nat) : List Nat :=
  (List.range stlNumMftPositionsMask).takeWhile fun j => j * stlPortMaskWidth ≤ numPorts

theorem rowPositions_nodup (numPorts : Nat) : (rowPositions numPorts).Nodup :=
  List.nodup_range.sublist (List.takeWhile_sublist _)

abbrev MftRows := Nat → Nat → BitVec 64

def stlNumMftElementsBlock : Nat := 8

/-- What `sm_set_all_mft` reads besides the tables: its argument `force`, whether a
previous topology was passed, the static `oldMaxmcLid`, and `sm_multicast_get_max_lid`
now and when `sm_calculate_mfts` made the tables. -/
structure SetMftEnv where
  force : Bool
  topologyPasscount : Nat
  prevTp : Bool
  oldMaxmcLid : Nat
  newMaxmcLid : Nat
  calculatedMaxmcLid : Nat
  mlidTableCap : Nat

/-- A switch with its new table; `oldMft` is the table of the matching old switch. -/
structure MftSwitch where
  numPorts : Nat
  port0Active : Bool
  mftChange : Bool
  mft : MftRows
  oldMft : Option MftRows

namespace SetMftEnv

variable (env : SetMftEnv) (sw : MftSwitch)

def maxmcLid : Nat :=
  if env.oldMaxmcLid > env.newMaxmcLid then env.oldMaxmcLid else env.newMaxmcLid

def mlidCount : Nat := findMlidOffset env.maxmcLid

/-- `mftPortMaskChange`, which `sm_calculate_mfts` sets after comparing the rows up to
its own maximum. -/
def mftPortMaskChange : Bool :=
  env.topologyPasscount ≠ 0 ∧ sw.oldMft.any fun old =>
    (List.range (findMlidOffset env.calculatedMaxmcLid + 1)).any fun row =>
      (List.range stlNumMftPositionsMask).any fun i => sw.mft row i ≠ old row i

/-- `oldswp`, which is looked up from the second pass on. -/
def oldswp : Option MftRows :=
  if env.topologyPasscount > 1 ∧ env.prevTp then sw.oldMft else none

def skipsSwitch : Bool :=
  env.topologyPasscount > 1 ∧ !sw.mftChange ∧ !env.mftPortMaskChange sw ∧ !env.force

def blockRow (offset i j : Nat) : BitVec 64 :=
  if offset + j < env.mlidTableCap then sw.mft (offset + j) i else 0

def oldPortMask (old : MftRows) (offset i j : Nat) : BitVec 16 :=
  if offset + j < env.mlidTableCap then (old (offset + j) i).setWidth 16 else 0

def rowChange (offset i j : Nat) : Bool :=
  let lid := env.maxmcLid - env.mlidCount + offset
  if lid + j > env.oldMaxmcLid then env.blockRow sw offset i j ≠ 0
  else if !env.force ∧ !sw.mftChange then
    match env.oldswp sw with
    | none => false
    | some old => env.blockRow sw offset i j ≠ (env.oldPortMask old offset i j).setWidth 64
  else false

/-- The loop over the rows of a block, with the buffer and `mftBlockChange`.  Rows
after the last MLID keep what the buffer held before. -/
def fillBlock (offset i : Nat) : List Nat → (Nat → BitVec 64) → Bool → (Nat → BitVec 64) × Bool
  | [], mft, mftBlockChange => (mft, mftBlockChange)
  | j :: js, mft, mftBlockChange =>
    let mft := Function.update mft j (env.blockRow sw offset i j)
    if mftBlockChange then fillBlock offset i js mft true
    else if j > env.mlidCount - offset then (mft, false)
    else fillBlock offset i js mft (env.rowChange sw offset i j)

/-- A block as it is dispatched. -/
structure MftBlock where
  offset : Nat
  position : Nat
  rows : Nat → BitVec 64

def skipsBlock (mftBlockChange : Bool) : Bool :=
  !env.force ∧ !sw.mftChange ∧ (env.oldswp sw).isSome ∧ !mftBlockChange

def sendBlocks : List (Nat × Nat) → (Nat → BitVec 64) → List MftBlock
  | [], _ => []
  | (offset, i) :: blocks, mft =>
    let filled := env.fillBlock sw offset i (List.range stlNumMftElementsBlock) mft false
    if env.skipsBlock sw filled.2 then sendBlocks blocks filled.1
    else ⟨offset, i, filled.1⟩ :: sendBlocks blocks filled.1

def blocks : List (Nat × Nat) :=
  (List.range (env.mlidCount / stlNumMftElementsBlock + 1)).flatMap fun k =>
    (rowPositions sw.numPorts).map fun i => (k * stlNumMftElementsBlock, i)

/-- What `sm_set_all_mft` sends to one switch. -/
def setMft : List MftBlock :=
  if !sw.port0Active ∨ env.skipsSwitch sw then [] else env.sendBlocks sw (env.blocks sw) fun _ => 0

end SetMftEnv

/-- `sm_set_all_mft`, with the blocks for each switch.  It stops when the SM is no
longer master, which is looked at before every switch. -/
def smSetAllMft (env : SetMftEnv) : List (Bool × MftSwitch) → List (List SetMftEnv.MftBlock)
  | [] => []
  | (isMaster, sw) :: rest => if isMaster then env.setMft sw :: smSetAllMft env rest else []

def writeBlock (hw : MftRows) (b : SetMftEnv.MftBlock) : MftRows :=
  fun row i =>
    if i = b.position ∧ b.offset ≤ row ∧ row < b.offset + stlNumMftElementsBlock then
      b.rows (row - b.offset)
    else hw row i

end OpaFm.Multicast
