import OpaFm.Lib.Iterator
import Mathlib.Algebra.Order.Ring.Nat

/-!
# LID iterators

The pairs of a source and a destination LID for which the SA reports paths.
`sm_select_path_lids` gives the LIDs of either side, and an iterator goes through the pairs in the
order that the configuration asks for.
-/

namespace OpaFm.PathRecord

inductive PathMode where
  | minimal
  | pairwise
  | orderall
  | srcdstall
  deriving DecidableEq, Repr

def permissiveLid : Nat := 0xFFFF

/-- The LIDs of an end port: unicast LIDs from an aligned base LID on. -/
structure EndPort where
  lid : Nat
  lmc : Nat
  lmc_le : lmc ≤ 7
  aligned : 2 ^ lmc ∣ lid
  unicast : lid + 2 ^ lmc ≤ 0xC000

def EndPort.HasLid (p : EndPort) (lid : Nat) : Prop := p.lid ≤ lid ∧ lid < p.lid + 2 ^ p.lmc

instance (p : EndPort) (lid : Nat) : Decidable (p.HasLid lid) := by
  unfold EndPort.HasLid
  infer_instance

/-- One side of `sm_select_path_lids`: the LIDs and their number, as a byte. -/
def selectLids (p : EndPort) (lid : Nat) : List Nat × Nat :=
  if lid = permissiveLid then ((List.range (2 ^ p.lmc)).map (p.lid + ·), 2 ^ p.lmc % 256)
  else ([lid], 1)

def smSelectPathLids (srcPortp : EndPort) (slid : Nat) (dstPortp : EndPort) (dlid : Nat) :
    (List Nat × Nat) × (List Nat × Nat) :=
  (selectLids srcPortp slid, selectLids dstPortp dlid)

structure LidIterator where
  srcStart : Nat
  srcEndp1 : Nat
  srcLmcMask : Nat
  dstStart : Nat
  dstEndp1 : Nat
  dstLmcMask : Nat
  slid : Nat
  dlid : Nat
  phase : Nat
  endPhase : Nat
  deriving DecidableEq, Repr

def wrap16 (n : Nat) : Nat := n % 65536

def lmcMask (lmc : Nat) : Nat := 0xffff ^^^ wrap16 (0xffff <<< lmc)

def PathMode.phases : PathMode → Nat × Nat
  | .pairwise => (0, 0)
  | .orderall => (0, 1)
  | .minimal => (6, 6)
  | .srcdstall => (4, 4)

/-- A LID of the range from `start` on, the cursor cut down to the bits of the mask. -/
def foldLid (start mask cursor : Nat) : Nat := (start &&& (0xffff ^^^ mask)) ||| (cursor &&& mask)

def LidIterator.apart (it : LidIterator) : Bool :=
  it.slid &&& it.srcLmcMask &&& it.dstLmcMask ≠ it.dlid &&& it.dstLmcMask &&& it.srcLmcMask

def LidIterator.nextPhase (it : LidIterator) : LidIterator :=
  { it with phase := it.phase + 1, slid := it.srcStart, dlid := it.dstStart }

def LidIterator.incSlid (it : LidIterator) : LidIterator := { it with slid := wrap16 (it.slid + 1) }

def LidIterator.incDlid (it : LidIterator) : LidIterator := { it with dlid := wrap16 (it.dlid + 1) }

def LidIterator.resetDlid (it : LidIterator) : LidIterator := { it with dlid := it.dstStart }

/-! ## Pairs -/

/-- `lid_iterator_init`, with the pair that it stores. -/
def lidIteratorInit (srcPortp : EndPort) (srcStartLid srcLidLen : Nat) (dstPortp : EndPort)
    (dstStartLid dstLidLen : Nat) (pathMode : PathMode) : LidIterator × (Nat × Nat) :=
  ({ srcStart := srcStartLid
     srcEndp1 := wrap16 (srcStartLid + srcLidLen)
     srcLmcMask := lmcMask srcPortp.lmc
     dstStart := dstStartLid
     dstEndp1 := wrap16 (dstStartLid + dstLidLen)
     dstLmcMask := lmcMask dstPortp.lmc
     slid := srcStartLid
     dlid := dstStartLid
     phase := pathMode.phases.1
     endPhase := pathMode.phases.2 },
    (srcStartLid, dstStartLid))

def lidIteratorDone (it : LidIterator) : Bool :=
  (it.slid ≥ it.srcEndp1 && it.dlid ≥ it.dstEndp1) || it.phase > it.endPhase

/-- The two loops of phase 1.  The flag says whether they were left for `done`. -/
def phaseOne : Nat → LidIterator → Option (LidIterator × Bool)
  | 0, _ => none
  | fuel + 1, it =>
    let it := it.incDlid
    if it.dlid ≥ it.dstEndp1 then
      let it := it.resetDlid.incSlid
      if it.slid ≥ it.srcEndp1 then some (it.nextPhase, false)
      else if it.apart then some (it, true)
      else phaseOne fuel it
    else if it.apart then some (it, true)
    else phaseOne fuel it

def phaseOneFuel : Nat := 65536

/-- What `lid_iterator_next` does in phase 0, before phase 1. -/
def phaseZero (it : LidIterator) : LidIterator × Bool :=
  let it := it.incSlid.incDlid
  if it.slid < it.srcEndp1 ∨ it.dlid < it.dstEndp1 then (it, true) else (it.nextPhase, false)

def phaseFour (it : LidIterator) : LidIterator × Bool :=
  let it := it.incDlid
  if it.dlid < it.dstEndp1 then (it, true)
  else
    let it := it.resetDlid.incSlid
    if it.slid < it.srcEndp1 then (it, true) else (it.nextPhase, false)

def phaseSix (it : LidIterator) : LidIterator × Bool :=
  let it := it.incSlid.incDlid
  if it.slid < it.srcEndp1 ∧ it.dlid < it.dstEndp1 then (it, true) else (it.nextPhase, false)

/-- Phases 4 and 6, unless an earlier phase has left for `done`. -/
def lastPhases (r : LidIterator × Bool) : LidIterator × Bool :=
  if r.2 then r
  else
    let r := if r.1.phase = 4 then phaseFour r.1 else r
    if r.2 then r
    else if r.1.phase = 6 then phaseSix r.1
    else r

/-- The phases of `lid_iterator_next` one after the other, until one leaves for `done`. -/
def lidIteratorPhases (it : LidIterator) : Option (LidIterator × Bool) :=
  let r := if it.phase = 0 then phaseZero it else (it, false)
  if r.2 then some r
  else
    (if r.1.phase = 1 then phaseOne phaseOneFuel r.1 else some (r.1, false)).map lastPhases

/-- What `done` stores; the caller's variables keep their pair otherwise. -/
def showPair (pair : Nat × Nat) (r : LidIterator × Bool) : LidIterator × (Nat × Nat) :=
  (r.1,
    if r.2 then
      (foldLid r.1.srcStart r.1.srcLmcMask r.1.slid,
        foldLid r.1.dstStart r.1.dstLmcMask r.1.dlid)
    else pair)

/-- `lid_iterator_next`, with the pair that the caller's variables hold. -/
def lidIteratorNext (s : LidIterator × (Nat × Nat)) : Option (LidIterator × (Nat × Nat)) :=
  (lidIteratorPhases s.1).map (showPair s.2)

/-! ## One side fixed -/

def lidIteratorInit1 (srcPortp : EndPort) (slid srcLidStart srcLidLen : Nat) (dstPortp : EndPort)
    (dstLidStart dstLidLen : Nat) (pathMode : PathMode) : LidIterator × Nat :=
  let srcLmcMask := lmcMask srcPortp.lmc
  let dstLmcMask := lmcMask dstPortp.lmc
  let slidOffset := slid &&& srcLmcMask
  let dlid :=
    match pathMode.phases.1 with
    | 0 => dstLidStart ||| (slidOffset &&& dstLmcMask)
    | 6 => dstLidStart ||| (slidOffset &&& dstLmcMask)
    | _ => dstLidStart
  ({ srcStart := srcLidStart
     srcEndp1 := wrap16 (srcLidStart + srcLidLen)
     srcLmcMask := srcLmcMask
     dstStart := dstLidStart
     dstEndp1 := wrap16 (dstLidStart + dstLidLen)
     dstLmcMask := dstLmcMask
     slid := slid
     dlid := dlid
     phase := pathMode.phases.1
     endPhase := pathMode.phases.2 },
    dlid)

def lidIteratorDone1 (it : LidIterator) : Bool :=
  it.dlid ≥ it.dstEndp1 || it.phase > it.endPhase

def LidIterator.nextPhase1 (it : LidIterator) : LidIterator :=
  { it with phase := it.phase + 1, dlid := it.dstStart }

def phaseOne1 : Nat → LidIterator → Option (LidIterator × Bool)
  | 0, _ => none
  | fuel + 1, it =>
    let it := it.incDlid
    if it.dlid ≥ it.dstEndp1 then some (it.nextPhase1, false)
    else if it.apart then some (it, true)
    else phaseOne1 fuel it

/-- Phase 0 steps by the length of the fixed side's range; its end makes up for the increment of
phase 1. -/
def phaseZero1 (it : LidIterator) : LidIterator × Bool :=
  let it := { it with dlid := wrap16 (it.dlid + wrap16 (it.srcEndp1 + 65536 - it.srcStart)) }
  if it.dlid < it.dstEndp1 then (it, true)
  else ({ it with phase := it.phase + 1, dlid := wrap16 (it.dstStart + 65535) }, false)

def phaseFour1 (it : LidIterator) : LidIterator × Bool :=
  let it := it.incDlid
  if it.dlid < it.dstEndp1 then (it, true) else (it.nextPhase1, false)

def lastPhases1 (r : LidIterator × Bool) : LidIterator × Bool :=
  if r.2 then r
  else
    let r := if r.1.phase = 4 then phaseFour1 r.1 else r
    if r.2 then r
    else if r.1.phase = 6 then (r.1.nextPhase1, false)
    else r

def lidIteratorPhases1 (it : LidIterator) : Option (LidIterator × Bool) :=
  let r := if it.phase = 0 then phaseZero1 it else (it, false)
  if r.2 then some r
  else
    (if r.1.phase = 1 then phaseOne1 phaseOneFuel r.1 else some (r.1, false)).map lastPhases1

def showLid (lid : Nat) (r : LidIterator × Bool) : LidIterator × Nat :=
  (r.1, if r.2 then foldLid r.1.dstStart r.1.dstLmcMask r.1.dlid else lid)

def lidIteratorNext1 (s : LidIterator × Nat) : Option (LidIterator × Nat) :=
  (lidIteratorPhases1 s.1).map (showLid s.2)

/-! ## The pairs of a query -/

open OpaFm.Lib

def collectPairs (fuel : Nat) (s : LidIterator × (Nat × Nat)) : Option (List (Nat × Nat)) :=
  collect (fun s => lidIteratorDone s.1) lidIteratorNext Prod.snd fuel s

def collectLids (fuel : Nat) (s : LidIterator × Nat) : Option (List Nat) :=
  collect (fun s => lidIteratorDone1 s.1) lidIteratorNext1 Prod.snd fuel s

/-- The pairs of LIDs that `sa_PathRecord_Set` goes through. -/
def pathLids (fuel : Nat) (pathMode : PathMode) (srcPortp : EndPort) (slid : Nat)
    (dstPortp : EndPort) (dlid : Nat) : Option (List (Nat × Nat)) :=
  let srcLids := (smSelectPathLids srcPortp slid dstPortp dlid).1
  let dstLids := (smSelectPathLids srcPortp slid dstPortp dlid).2
  if slid = permissiveLid ∧ dlid = permissiveLid then
    collectPairs fuel (lidIteratorInit srcPortp (srcLids.1.headD 0) srcLids.2 dstPortp
      (dstLids.1.headD 0) dstLids.2 pathMode)
  else if slid = permissiveLid then
    (collectLids fuel (lidIteratorInit1 dstPortp dlid (dstLids.1.headD 0) dstLids.2 srcPortp
      (srcLids.1.headD 0) srcLids.2 pathMode)).map fun lids => lids.map fun lid => (lid, dlid)
  else if dlid = permissiveLid then
    (collectLids fuel (lidIteratorInit1 srcPortp slid (srcLids.1.headD 0) srcLids.2 dstPortp
      (dstLids.1.headD 0) dstLids.2 pathMode)).map fun lids => lids.map fun lid => (slid, lid)
  else some [(slid, dlid)]

end OpaFm.PathRecord
